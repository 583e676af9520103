import BotConsole.Proofs.Json.Compact
import BotConsole.Proofs.Json.Ordered
import BotConsole.Proofs.Json.Record
import BotConsole.Proofs.Task.Envelope

namespace BotConsole

open Json

namespace Task

namespace Runtime

-- The result of a task is no null, and its objects are sorted.
def WellFormed (r : Runtime) : Prop :=
  ∀ v ∈ r.result, v.Ordered ∧ v ≠ .null

theorem ofTree?_eq_some_iff {t : Tree} {r : Runtime} :
    ofTree? t = some r ↔ ∃ done exception state traceback result,
      Record.fields? fieldNames t = some [done, exception, state, traceback, result] ∧
      Record.required Record.bool? done = some r.done ∧
      Record.nullable Record.text? exception = some r.exception ∧
      Record.nullable Record.text? state = some r.state ∧
      Record.nullable Record.text? traceback = some r.traceback ∧
      Record.nullable Tree.value? result = some r.result := by
  constructor
  · intro h
    simp only [ofTree?, Option.bind_eq_bind, Option.bind_eq_some_iff] at h
    obtain ⟨fields, hfields, h⟩ := h
    split at h
    · simp only [Option.bind_eq_some_iff, Option.some.injEq] at h
      obtain ⟨d, hd, e, he, s, hs, b, hb, v, hv, rfl⟩ := h
      exact ⟨_, _, _, _, _, hfields, hd, he, hs, hb, hv⟩
    · cases h
  · rintro ⟨done, exception, state, traceback, result, hfields, hd, he, hs, hb, hv⟩
    simp [ofTree?, hfields, hd, he, hs, hb, hv]

theorem wellFormed_of_ofTree? {t : Tree} {r : Runtime} (h : ofTree? t = some r) :
    r.WellFormed := by
  obtain ⟨-, -, -, -, result, -, -, -, -, -, hresult⟩ := ofTree?_eq_some_iff.mp h
  intro v hv
  rw [Option.mem_def.mp hv] at hresult
  obtain ⟨t, -, hnull, ht⟩ := Record.nullable_eq_some hresult
  refine ⟨Value.ordered_of_value? ht, ?_⟩
  rintro rfl
  cases t with
  | null => exact hnull rfl
  | _ => simp [Tree.value?] at ht

theorem fields?_toValue (r : Runtime) :
    Record.fields? fieldNames r.toValue.toTree = some [some (.bool r.done),
      some ((r.exception.map Value.text).getD .null).toTree, r.state.map fun s => .text (some s),
      r.traceback.map fun s => .text (some s), r.result.map Value.toTree] := by
  obtain ⟨done, exception, _ | state, _ | traceback, _ | result⟩ := r <;> rfl

theorem nullable_text? (s : Option String) :
    Record.nullable Record.text? (s.map fun s => .text (some s)) = some s := by
  cases s <;> rfl

theorem ofTree?_toValue {r : Runtime} (h : r.WellFormed) : ofTree? r.toValue.toTree = some r := by
  refine ofTree?_eq_some_iff.mpr ⟨_, _, _, _, _, fields?_toValue r, rfl, ?_,
    nullable_text? _, nullable_text? _, ?_⟩
  · cases r.exception <;> rfl
  · cases hresult : r.result with
    | none => rfl
    | some v =>
      obtain ⟨hordered, hnull⟩ := h v hresult
      have hvalue := Value.value?_toTree hordered
      rw [Option.map_some, Record.nullable_some (Value.toTree_ne_null hnull), hvalue]
      rfl

def Widened : Tree → Tree → Prop :=
  Record.Widened fieldNames fun _ t t' => t = t'

theorem ofTree?_widened {t t' : Tree} (h : Widened t t') : ofTree? t' = ofTree? t := by
  unfold ofTree?
  rw [Record.fields?_widened h]

end Runtime

namespace Status

-- The number of the task is an integer of the signed 64-bit range.
structure WellFormed (s : Status) : Prop where
  id : ∀ i ∈ s.id, -(1 <<< 63 : Nat) ≤ i ∧ i < (1 <<< 63 : Nat)
  runtime : s.runtime.WellFormed

theorem ofTree?_eq_some_iff {t : Tree} {s : Status} :
    ofTree? t = some s ↔ ∃ id name runtime,
      Record.fields? fieldNames t = some [id, name, runtime] ∧
      Record.nullable Record.signed64? id = some s.id ∧
      Record.nullable Record.text? name = some s.name ∧
      Record.required Runtime.ofTree? runtime = some s.runtime := by
  constructor
  · intro h
    simp only [ofTree?, Option.bind_eq_bind, Option.bind_eq_some_iff] at h
    obtain ⟨fields, hfields, h⟩ := h
    split at h
    · simp only [Option.bind_eq_some_iff, Option.some.injEq] at h
      obtain ⟨i, hi, n, hn, r, hr, rfl⟩ := h
      exact ⟨_, _, _, hfields, hi, hn, hr⟩
    · cases h
  · rintro ⟨id, name, runtime, hfields, hi, hn, hr⟩
    simp [ofTree?, hfields, hi, hn, hr]

theorem wellFormed_of_ofTree? {t : Tree} {s : Status} (h : ofTree? t = some s) :
    s.WellFormed := by
  obtain ⟨id, -, runtime, -, hid, -, hruntime⟩ := ofTree?_eq_some_iff.mp h
  constructor
  · intro i hi
    rw [Option.mem_def.mp hi] at hid
    obtain ⟨t, -, -, ht⟩ := Record.nullable_eq_some hid
    exact Record.signed64?_bounds ht
  · cases runtime with
    | none => cases hruntime
    | some t => exact Runtime.wellFormed_of_ofTree? hruntime

theorem fields?_toValue (s : Status) :
    Record.fields? fieldNames s.toValue.toTree = some [s.id.map fun i => .number (some (.int i)),
      s.name.map fun n => .text (some n), some s.runtime.toValue.toTree] := by
  obtain ⟨_ | id, _ | name, runtime⟩ := s <;> rfl

theorem ofTree?_toValue {s : Status} (h : s.WellFormed) : ofTree? s.toValue.toTree = some s := by
  refine ofTree?_eq_some_iff.mpr ⟨_, _, _, fields?_toValue s, ?_, Runtime.nullable_text? _,
    Runtime.ofTree?_toValue h.runtime⟩
  cases hid : s.id with
  | none => rfl
  | some i =>
    obtain ⟨hlow, hhigh⟩ := h.id i hid
    rw [Option.map_some, Record.nullable_some (by simp), Record.signed64?_int hlow hhigh]
    rfl

-- Keys of a status that are not among the names, or keys of its runtime that nobody reads.
def Widened (names : List String) : Tree → Tree → Prop :=
  Record.Widened names fun key t t' => if key = some "runtime" then Runtime.Widened t t' else t = t'

theorem ofTree?_widened {names : List String} {t t' : Tree} (hnames : fieldNames ⊆ names)
    (h : Widened names t t') : ofTree? t' = ofTree? t := by
  cases h with
  | refl => rfl
  | @object members members' h =>
    have hid : Record.field? "id" members' = Record.field? "id" members :=
      h.field?_eq (hnames (by simp [fieldNames])) (by simp)
    have hname : Record.field? "name" members' = Record.field? "name" members :=
      h.field?_eq (hnames (by simp [fieldNames])) (by simp)
    have hruntime := h.field?_rel (hnames (by simp [fieldNames] : "runtime" ∈ fieldNames))
    simp only [ofTree?, Record.fields?, h.keys_eq, fieldNames, List.mapM_cons, List.mapM_nil, hid,
      hname]
    generalize Record.field? "runtime" members = runtime at hruntime ⊢
    generalize Record.field? "runtime" members' = runtime' at hruntime ⊢
    rcases hruntime with (@⟨u, u', hsame⟩ | _) | _
    · have hu : Runtime.ofTree? u' = Runtime.ofTree? u := Runtime.ofTree?_widened hsame
      cases Record.field? "id" members with
      | none => rfl
      | some id =>
        cases Record.field? "name" members with
        | none => rfl
        | some name => cases members.all (·.1.isSome) <;> simp [Record.required, hu]
    · rfl
    · rfl

end Status

namespace Envelope

def Widened : Tree → Tree → Prop :=
  Record.Widened fieldNames fun key t t' =>
    if key = some "data" then Status.Widened Status.fieldNames t t' else t = t'

theorem ofTree?_widened {t t' : Tree} (h : Widened t t') : ofTree? t' = ofTree? t := by
  cases h with
  | refl => rfl
  | @object members members' h =>
    have hcode : Record.field? "code" members' = Record.field? "code" members :=
      h.field?_eq (by simp [fieldNames]) (by simp)
    have hmessage : Record.field? "msg" members' = Record.field? "msg" members :=
      h.field?_eq (by simp [fieldNames]) (by simp)
    have hdata := h.field?_rel (by simp [fieldNames] : "data" ∈ fieldNames)
    cases hkeys : members.all (·.1.isSome) with
    | false =>
      have hkeys' : members'.all (·.1.isSome) = false := h.keys_eq.trans hkeys
      simp [ofTree?, Record.fields?, hkeys, hkeys']
    | true =>
      rw [ofTree?_object hkeys, ofTree?_object (h.keys_eq.trans hkeys), hcode, hmessage]
      generalize Record.field? "data" members = data at hdata ⊢
      generalize Record.field? "data" members' = data' at hdata ⊢
      rcases hdata with (@⟨u, u', hsame⟩ | _) | _
      · have hwidened : Status.Widened Status.fieldNames u u' := hsame
        have hread := Status.ofTree?_widened (List.Subset.refl _) hwidened
        have hnullable : Record.nullable Status.ofTree? (some u') =
            Record.nullable Status.ofTree? (some u) := hwidened.nullable_eq hread
        simp only [Option.bind_eq_bind, Option.bind_some, hnullable]
      · rfl
      · rfl

def wrap (message : String) (s : Status) : Value :=
  .object [("code", .number (.int 0)), ("data", s.toValue), ("msg", .text message)]

theorem ofTree?_wrap (message : String) {s : Status} (h : s.WellFormed) :
    ofTree? (wrap message s).toTree = some ⟨0, message, some s⟩ := by
  have hdata : Record.nullable Status.ofTree? (some s.toValue.toTree) = some (some s) := by
    rw [Record.nullable_some (by simp [Status.toValue, Value.toTree]), Status.ofTree?_toValue h]
    rfl
  refine (ofTree?_eq_some_iff rfl).mpr ⟨_, _, _, rfl, rfl, rfl, rfl, rfl, hdata⟩

theorem ofTree?_toValue (s : Status) : ofTree? s.toValue.toTree = none := by
  obtain ⟨_ | id, _ | name, runtime⟩ := s <;> rfl

theorem wellFormed_of_ofTree? {t : Tree} {e : Envelope} {s : Status} (h : ofTree? t = some e)
    (hs : e.status = some s) : s.WellFormed := by
  simp only [ofTree?, Option.bind_eq_bind, Option.bind_eq_some_iff] at h
  obtain ⟨fields, hfields, h⟩ := h
  split at h
  · split at h
    · cases h
    · simp only [Option.bind_eq_some_iff, Option.some.injEq] at h
      obtain ⟨c, -, m, -, status, hstatus, rfl⟩ := h
      obtain rfl := hs
      obtain ⟨u, -, -, hu⟩ := Record.nullable_eq_some hstatus
      exact Status.wellFormed_of_ofTree? hu
  · cases h

theorem status_of_deliver {e : Envelope} {s : Status} (h : e.deliver = .ok s) :
    e.status = some s := by
  unfold deliver at h
  split at h
  · cases h
  · split at h
    · rename_i hs
      cases h
      exact hs
    · cases h

-- Keys that no envelope has make none of a status.
theorem ofTree?_widened_status {names : List String} {t t' : Tree} (hnames : fieldNames ⊆ names)
    (h : Status.Widened names t t') : ofTree? t' = ofTree? t := by
  cases h with
  | refl => rfl
  | @object members members' h =>
    have hcode : Record.field? "code" members' = Record.field? "code" members :=
      h.field?_eq (hnames (by simp [fieldNames])) (by simp)
    have hmessage : Record.field? "msg" members' = Record.field? "msg" members :=
      h.field?_eq (hnames (by simp [fieldNames])) (by simp)
    have hdata : Record.field? "data" members' = Record.field? "data" members :=
      h.field?_eq (hnames (by simp [fieldNames])) (by simp)
    simp only [ofTree?, Record.fields?, h.keys_eq, fieldNames, List.mapM_cons, List.mapM_nil, hcode,
      hmessage, hdata]

end Envelope

namespace Status

variable {s : Status} {t t' : Tree}

-- Keys in the body of an answer that are not read. An object that is no envelope must not become
-- one by them.
inductive WidenedBody : Tree → Tree → Prop where
  | bare {t t' : Tree} (h : Widened (fieldNames ++ Envelope.fieldNames) t t') : WidenedBody t t'
  | wrapped {t t' : Tree} (henvelope : (Envelope.ofTree? t).isSome = true)
      (h : Envelope.Widened t t') : WidenedBody t t'

theorem ofTree_widened (h : WidenedBody t t') : ofTree t' = ofTree t := by
  cases h with
  | bare h =>
    have hwrapped := Envelope.ofTree?_widened_status (List.subset_append_right _ _) h
    have hbare := ofTree?_widened (List.subset_append_left _ _) h
    unfold ofTree
    rw [hwrapped, hbare]
  | wrapped henvelope h =>
    obtain ⟨e, he⟩ := Option.isSome_iff_exists.mp henvelope
    have he' := Envelope.ofTree?_widened h
    unfold ofTree
    rw [he', he]

-- Two forms in which a status is delivered: by itself, and in an envelope that says that all is
-- well.
inductive Encodes (s : Status) : Value → Prop where
  | bare : Encodes s s.toValue
  | wrapped (message : String) : Encodes s (Envelope.wrap message s)

theorem ofTree_of_encodes {v : Value} (hs : s.WellFormed) (h : s.Encodes v) :
    ofTree v.toTree = .ok s := by
  unfold ofTree
  cases h with
  | bare => rw [Envelope.ofTree?_toValue, ofTree?_toValue hs]
  | wrapped message =>
    rw [Envelope.ofTree?_wrap message hs]
    rfl

theorem wellFormed_of_ofTree (h : ofTree t = .ok s) : s.WellFormed := by
  unfold ofTree at h
  split at h
  · rename_i e he
    exact Envelope.wellFormed_of_ofTree? he (Envelope.status_of_deliver h)
  · split at h
    · rename_i hs
      cases h
      exact wellFormed_of_ofTree? hs
    · cases h

theorem wellFormed_of_ofBody {body : List Char} (h : ofBody body = .ok s) : s.WellFormed := by
  unfold ofBody at h
  split at h
  · split at h
    · exact wellFormed_of_ofTree h
    · cases h
  · cases h

def nesting (s : Status) : Nat :=
  s.runtime.result.elim 0 fun v => v.toTree.depth

theorem depth_toValue (s : Status) : s.toValue.toTree.depth = s.nesting + 2 := by
  have hruntime : s.runtime.toValue.toTree.depth = s.nesting + 1 := by
    obtain ⟨_, _, done, _ | exception, _ | state, _ | traceback, _ | result⟩ := s <;>
      simp [Runtime.toValue, Value.toTree, Value.toMembers, Tree.depth, Tree.depthOfMembers,
        nesting]
  obtain ⟨_ | id, _ | name, runtime⟩ := s <;>
    simp [toValue, Value.toTree, Value.toMembers, Tree.depth, Tree.depthOfMembers, hruntime]

theorem depth_wrap (message : String) (s : Status) :
    (Envelope.wrap message s).toTree.depth = s.nesting + 3 := by
  simp [Envelope.wrap, Value.toTree, Value.toMembers, Tree.depth, Tree.depthOfMembers,
    depth_toValue]

theorem kept_toValue (hs : s.WellFormed) (h : ∀ v ∈ s.runtime.result, v.Kept) :
    s.toValue.Kept := by
  have hid : ∀ i ∈ s.id, (Number.int i).Kept := by
    intro i hi
    obtain ⟨hlow, hhigh⟩ := hs.id i hi
    exact Number.kept_int hlow (hhigh.le.trans (by decide))
  have hruntime : s.runtime.toValue.Kept := by
    obtain ⟨_, _, done, _ | exception, _ | state, _ | traceback, _ | result⟩ := s <;>
      simp_all [Runtime.toValue, Value.Kept, Value.KeptMembers]
  obtain ⟨_ | id, _ | name, runtime⟩ := s <;>
    simp_all [toValue, Value.Kept, Value.KeptMembers]

theorem kept_wrap (message : String) (hs : s.WellFormed) (h : ∀ v ∈ s.runtime.result, v.Kept) :
    (Envelope.wrap message s).Kept :=
  ⟨Number.kept_int (by decide) (by decide), kept_toValue hs h, trivial, trivial⟩

theorem ofBody_of_encodes {v : Value} {body : List Char} (hs : s.WellFormed) (h : s.Encodes v)
    (hread : Tree.read? body = some v.toTree) :
    ofBody body = .ok s ↔ v.toTree.depth ≤ Tree.maxDepth := by
  constructor
  · intro hok
    by_contra hdeep
    obtain ⟨m, hm⟩ := ofBody_of_not_readable hread fun h => hdeep h.2
    rw [hok] at hm
    cases hm
  · intro hdepth
    rw [ofBody_eq_ofTree hread (Value.isReadable_toTree v) hdepth, ofTree_of_encodes hs h]

end Status

-- A status is decoded from every text of it, by itself or in an envelope, that is not nested too
-- deeply. Nothing but such a status is ever decoded, and keys that are not read change nothing.
theorem decoding_undoes_encoding :
    (∀ s : Status, s.WellFormed →
      (∀ v body, s.Encodes v → Tree.read? body = some v.toTree →
        v.toTree.depth ≤ Tree.maxDepth → Status.ofBody body = .ok s) ∧
      ((∀ w ∈ s.runtime.result, w.Kept) →
        (Status.ofBody (Writer.compact s.toValue) = .ok s ↔ s.nesting ≤ 125) ∧
        ∀ message, Status.ofBody (Writer.compact (Envelope.wrap message s)) = .ok s ↔
          s.nesting ≤ 124)) ∧
    (∀ i : Int, -2 ^ 63 ≤ i → i < 2 ^ 64 → (Value.number (.int i)).Kept) ∧
    (∀ body s, Status.ofBody body = .ok s → s.WellFormed) ∧
    ∀ body body' t t', Tree.read? body = some t → Tree.read? body' = some t' →
      t.isReadable = true → t.depth ≤ Tree.maxDepth → t'.isReadable = true →
      t'.depth ≤ Tree.maxDepth → Status.WidenedBody t t' →
      Status.ofBody body' = Status.ofBody body := by
  refine ⟨fun s hs => ⟨?_, fun hkept => ⟨?_, fun message => ?_⟩⟩, fun i hlow hhigh => ?_,
    fun _ _ => Status.wellFormed_of_ofBody, ?_⟩
  · intro v body hv hread hdepth
    exact (Status.ofBody_of_encodes hs hv hread).mpr hdepth
  · have hread := Tree.read?_compact (Status.kept_toValue hs hkept)
    rw [Status.ofBody_of_encodes hs .bare hread, Status.depth_toValue, Tree.maxDepth]
    omega
  · have hread := Tree.read?_compact (Status.kept_wrap message hs hkept)
    rw [Status.ofBody_of_encodes hs (.wrapped message) hread, Status.depth_wrap, Tree.maxDepth]
    omega
  · exact Number.kept_int hlow (Int.le_sub_one_of_lt hhigh)
  · intro body body' t t' hread hread' hreadable hdepth hreadable' hdepth' hwidened
    rw [Status.ofBody_eq_ofTree hread hreadable hdepth,
      Status.ofBody_eq_ofTree hread' hreadable' hdepth', Status.ofTree_widened hwidened]

def answered : Status :=
  ⟨some 7, none, { Runtime.succeeded with result := some (.list [.number (.int 42), .text "\n"]) }⟩

def answeredBody : String :=
  "\x7b\"created\":0,\"id\":7,\"runtime\":\x7b\"done\":true,\"exception\":null," ++
    "\"result\":[42,\"\\n\"],\"seconds\":9\x7d\x7d"

def answeredRuntime : List (Option String × Tree) :=
  [(some "done", .bool true), (some "exception", .null),
    (some "result", .list [.number (some (.int 42)), .text (some "\n")])]

def secondsMember : Option String × Tree := (some "seconds", .number (some (.int 9)))

def answeredTree : Tree :=
  .object [(some "created", .number (some (.int 0))), (some "id", .number (some (.int 7))),
    (some "runtime", .object (answeredRuntime ++ [secondsMember]))]

theorem widened_answered : Status.WidenedBody answered.toValue.toTree answeredTree := by
  have hruntime : Runtime.Widened (.object answeredRuntime)
      (.object (answeredRuntime ++ [secondsMember])) :=
    .object ⟨answeredRuntime, [secondsMember], List.forall₂_same.mpr fun _ _ => ⟨rfl, rfl⟩,
      by simp [secondsMember, Runtime.fieldNames], .refl _⟩
  refine .bare (.object ⟨[(some "id", .number (some (.int 7))),
    (some "runtime", .object (answeredRuntime ++ [secondsMember]))],
    [(some "created", .number (some (.int 0)))], ?_, ?_, (List.perm_append_singleton _ _).symm⟩)
  · exact .cons ⟨rfl, rfl⟩ (.cons ⟨rfl, hruntime⟩ .nil)
  · simp [Status.fieldNames, Envelope.fieldNames]

theorem decoding_undoes_encoding_of_answered :
    Status.ofBody (Writer.compact answered.toValue) = .ok answered ∧
    Status.ofBody (Writer.compact (Envelope.wrap "" answered)) = .ok answered ∧
    Status.ofBody answeredBody.toList = .ok answered := by
  obtain ⟨hencoded, hint, -, hwidened⟩ := decoding_undoes_encoding
  have hwell : answered.WellFormed := by
    constructor
    · intro i hi
      obtain rfl := Option.some.inj hi
      decide
    · intro v hv
      obtain rfl := Option.some.inj hv
      exact ⟨⟨trivial, trivial, trivial⟩, by simp⟩
  have hkept : ∀ v ∈ answered.runtime.result, v.Kept := by
    intro v hv
    obtain rfl := Option.some.inj hv
    exact ⟨hint 42 (by decide) (by decide), trivial, trivial⟩
  obtain ⟨hbare, hwrapped⟩ := (hencoded answered hwell).2 hkept
  have hok := hbare.mpr (by decide)
  refine ⟨hok, (hwrapped "").mpr (by decide), ?_⟩
  have hread := Tree.read?_compact (Status.kept_toValue hwell hkept)
  have hread' : Tree.read? answeredBody.toList = some answeredTree := by decide +kernel
  rw [hwidened _ _ _ _ hread hread' (Value.isReadable_toTree _) (by decide) (by rfl) (by decide)
    widened_answered, hok]

def ofResult (v : Value) : Status :=
  ⟨none, none, { Runtime.succeeded with result := some v }⟩

theorem wellFormed_ofResult {v : Value} (hordered : v.Ordered) (hnull : v ≠ .null) :
    (ofResult v).WellFormed where
  id := by simp [ofResult]
  runtime := by
    intro w hw
    obtain rfl := Option.some.inj hw
    exact ⟨hordered, hnull⟩

def numericBody (n : List Char) : List Char :=
  ['{', '"', 'r', 'u', 'n', 't', 'i', 'm', 'e', '"', ':', '{', '"', 'd', 'o', 'n', 'e', '"', ':',
    't', 'r', 'u', 'e', ',', '"', 'e', 'x', 'c', 'e', 'p', 't', 'i', 'o', 'n', '"', ':',
    'n', 'u', 'l', 'l', ',', '"', 'r', 'e', 's', 'u', 'l', 't', '"', ':'] ++ n ++ ['}', '}']

theorem compact_ofResult (n : Number) :
    Writer.compact (ofResult (.number n)).toValue = numericBody n.toChars := by
  simp [ofResult, Runtime.succeeded, Runtime.pending, Status.toValue, Runtime.toValue,
    Writer.compact, Writer.compactMembers, Writer.scalar, Writer.text, Writer.escape, numericBody]

theorem ofBody_large :
    Status.ofBody (Writer.compact (ofResult (.number (.float Number.large))).toValue) =
      .ok (ofResult (.number (.float Number.below))) := by
  have htext : Writer.compact (ofResult (.number (.float Number.large))).toValue =
      numericBody ['3', 'e', '+', '2', '3'] := by
    rw [compact_ofResult, ← Number.toChars_large]
    rfl
  have hread : Tree.read? (numericBody ['3', 'e', '+', '2', '3']) =
      some (ofResult (.number (.float Number.below))).toValue.toTree := by
    have hliteral : Tree.read? (numericBody ['3', 'e', '+', '2', '3']) =
        some (.object [(some "runtime", .object [(some "done", .bool true),
          (some "exception", .null),
          (some "result", .number (Number.ofLiteral? Number.largeLiteral))])]) := by
      rfl
    rw [hliteral, Number.ofLiteral?_large]
    rfl
  have hwell : (ofResult (.number (.float Number.below))).WellFormed :=
    wellFormed_ofResult trivial (by simp)
  rw [htext]
  exact (Status.ofBody_of_encodes hwell .bare hread).mpr (by decide)

def nested : Nat → Value
  | 0 => .list []
  | n + 1 => .list [nested n]

theorem depth_nested (n : Nat) : (nested n).toTree.depth = n + 1 := by
  induction n with
  | zero => rfl
  | succ n ih => simp [nested, Value.toTree, Value.toTrees, Tree.depth, Tree.depthOfItems, ih]

theorem nested_ne_null (n : Nat) : nested n ≠ .null := by
  cases n <;> simp [nested]

theorem ordered_nested (n : Nat) : (nested n).Ordered := by
  induction n with
  | zero => trivial
  | succ n ih => exact ⟨ih, trivial⟩

theorem kept_nested (n : Nat) : (nested n).Kept := by
  induction n with
  | zero => trivial
  | succ n ih => exact ⟨ih, trivial⟩

-- Some numbers come back as their neighbours, and what is nested just deeply enough can be read by
-- itself but not in an envelope.
theorem encoding_not_always_undone :
    (¬ ∀ s : Status, s.WellFormed → Status.ofBody (Writer.compact s.toValue) = .ok s) ∧
    ¬ ∀ (s : Status) (message : String), s.WellFormed → (∀ v ∈ s.runtime.result, v.Kept) →
      Status.ofBody (Writer.compact (Envelope.wrap message s)) =
        Status.ofBody (Writer.compact s.toValue) := by
  constructor
  · intro h
    have hlarge := h _ (wellFormed_ofResult (v := .number (.float Number.large)) trivial (by simp))
    rw [ofBody_large] at hlarge
    have hsame : Number.below = Number.large := by simpa [ofResult] using hlarge
    exact absurd hsame (by decide)
  · intro h
    have hwell : (ofResult (nested 124)).WellFormed :=
      wellFormed_ofResult (ordered_nested _) (nested_ne_null _)
    have hkept : ∀ v ∈ (ofResult (nested 124)).runtime.result, v.Kept := by
      intro v hv
      obtain rfl := Option.some.inj hv
      exact kept_nested _
    have hnesting : (ofResult (nested 124)).nesting = 125 := depth_nested 124
    have hbare := Status.ofBody_of_encodes hwell .bare
      (Tree.read?_compact (Status.kept_toValue hwell hkept))
    have hwrapped := Status.ofBody_of_encodes hwell (.wrapped "")
      (Tree.read?_compact (Status.kept_wrap "" hwell hkept))
    rw [h _ "" hwell hkept, hbare, Status.depth_toValue, Status.depth_wrap, hnesting] at hwrapped
    exact absurd hwrapped (by decide)

end Task

end BotConsole
