import BotConsole.Json.Writer
import BotConsole.Proofs.Json.Number
import BotConsole.Proofs.Json.Ordered

namespace BotConsole.Json

namespace Reader

open Writer

variable {rest : List Char}

-- The step of a text that a character is written as: a control character without a letter of its
-- own as its number, all others as themselves.
def pieceOf (c : Char) : Piece :=
  if c.toNat < 0x20 ∧ c ≠ '\n' ∧ c ≠ '\r' ∧ c ≠ '\t' ∧ c ≠ '\x08' ∧ c ≠ '\x0c' then .unit c.toNat
  else .char c

theorem hexValue?_hexChar {n : Nat} (h : n < 0x20) :
    Text.hexValue? ['0', '0', hexChar (n / 16), hexChar (n % 16)] = some n := by
  revert n
  decide

theorem pieces?_plain {c : Char} (hq : c ≠ '"') (hb : c ≠ '\\') (hc : ¬ c.toNat < 0x20)
    (s : List Char) :
    pieces? (c :: s) = (pieces? s).map fun (ps, rest) => (.char c :: ps, rest) := by
  rw [pieces?, if_neg hc]
  · cases pieces? s <;> rfl
  · exact fun h => hq h
  · intro a b c d rest h
    exact absurd h hb
  · intro d rest h
    exact absurd h hb

theorem pieces?_escape (c : Char) (s : List Char) :
    pieces? (escape c ++ s) = (pieces? s).map fun (ps, rest) => (pieceOf c :: ps, rest) := by
  unfold escape
  split
  case h_8 hq hb hn hr ht h8 hc =>
    split
    · rename_i hlow
      have hpiece : pieceOf c = .unit c.toNat := by
        rw [pieceOf, if_pos ⟨hlow, hn, hr, ht, h8, hc⟩]
      simp only [List.cons_append, List.nil_append, pieces?, hexValue?_hexChar hlow, hpiece]
      cases pieces? s <;> rfl
    · rename_i hhigh
      have hpiece : pieceOf c = .char c := by
        rw [pieceOf, if_neg fun h => hhigh h.1]
      rw [List.cons_append, List.nil_append, pieces?_plain hq hb hhigh, hpiece]
  all_goals
    simp [pieces?, simpleEscape?, pieceOf]
    cases pieces? s <;> rfl

theorem pieces?_flatMap_escape (s rest : List Char) :
    pieces? (s.flatMap escape ++ '"' :: rest) = some (s.map pieceOf, rest) := by
  induction s with
  | nil => rfl
  | cons c s ih => rw [List.flatMap_cons, List.append_assoc, pieces?_escape, ih]; rfl

-- The number of a control character is half of no pair.
theorem joinPieces?_cons (c : Char) (s : List Char) :
    joinPieces? ((c :: s).map pieceOf) = (joinPieces? (s.map pieceOf)).map (c :: ·) := by
  rw [List.map_cons, pieceOf]
  split
  · rename_i h
    have hlead : isLeading c.toNat = false := by simp [isLeading]; omega
    have htrail : isTrailing c.toNat = false := by simp [isTrailing]; omega
    have hchar : Char.ofNat c.toNat = c := Char.ofNat_toNat c
    cases hs : s.map pieceOf with
    | nil => simp [joinPieces?, hlead, htrail, hchar]
    | cons p ps =>
      cases p with
      | char d => simp [joinPieces?, hlead, htrail, hchar]
      | unit m => simp [joinPieces?, hlead, htrail, hchar]
  · rfl

theorem joinPieces?_map_pieceOf (s : List Char) : joinPieces? (s.map pieceOf) = some s := by
  induction s with
  | nil => rfl
  | cons c s ih => rw [joinPieces?_cons, ih]; rfl

theorem text?_escaped (s : String) (rest : List Char) :
    text? (s.toList.flatMap escape ++ '"' :: rest) = some (some s, rest) := by
  simp [text?, pieces?_flatMap_escape, joinPieces?_map_pieceOf]

theorem skipBlanks_cons {c : Char} (h : isBlank c = false) (s : List Char) :
    skipBlanks (c :: s) = c :: s :=
  List.dropWhile_cons_of_neg (by simp [h])

theorem start_of_literal? {s r : List Char} {l : Literal} (h : literal? s = some (l, r)) :
    ∃ c tail, s = c :: tail ∧ isBlank c = false ∧
      ∀ d : Char, d.isDigit = false → d ≠ '-' → c ≠ d := by
  cases s with
  | nil => cases h
  | cons c s =>
    have hstart : ∀ d : Char, d.isDigit = false → d ≠ '-' → c ≠ d := by
      rintro d hd hminus rfl
      have hzero : c ≠ '0' := by
        rintro rfl
        cases hd
      have hwhole : whole? (c :: s) = none := by
        rw [whole?_cons_of_ne hzero]
        simp [digits?, hd]
      simp [literal?, hminus, hwhole] at h
    refine ⟨c, s, rfl, ?_, hstart⟩
    simp [isBlank, hstart ' ', hstart '\n', hstart '\t', hstart '\r', Char.isDigit]

theorem tree?_of_literal? {s r : List Char} {l : Literal} (h : literal? s = some (l, r))
    (fuel : Nat) : tree? (fuel + 1) s = some (.number (Number.ofLiteral? l), r) := by
  obtain ⟨c, tail, rfl, hblank, hc⟩ := start_of_literal? h
  simp [tree?, skipBlanks_cons hblank, hc 'n', hc 't', hc 'f', hc '"', hc '[', hc '{',
    Char.isDigit, h]

theorem tree?_list {fuel : Nat} {c : Char} {s rest : List Char} {ts : List Tree}
    (hblank : isBlank c = false) (hc : c ≠ ']')
    (h : items? fuel (c :: s) = some (ts, rest)) :
    tree? (fuel + 1) ('[' :: c :: s) = some (.list ts, rest) := by
  have hopen : isBlank '[' = false := rfl
  simp [tree?, skipBlanks_cons hopen, skipBlanks_cons hblank, hc, h]

theorem items?_last {fuel : Nat} {s rest : List Char} {t : Tree}
    (h : tree? fuel s = some (t, ']' :: rest)) : items? (fuel + 1) s = some ([t], rest) := by
  have hclose : isBlank ']' = false := rfl
  simp [items?, h, skipBlanks_cons hclose]

theorem items?_more {fuel : Nat} {s r rest : List Char} {t : Tree} {ts : List Tree}
    (h : tree? fuel s = some (t, ',' :: r)) (hmore : items? fuel r = some (ts, rest)) :
    items? (fuel + 1) s = some (t :: ts, rest) := by
  have hcomma : isBlank ',' = false := rfl
  simp [items?, h, skipBlanks_cons hcomma, hmore]

theorem tree?_object {fuel : Nat} {s rest : List Char} {ms : List (Option String × Tree)}
    (h : members? fuel ('"' :: s) = some (ms, rest)) :
    tree? (fuel + 1) ('{' :: '"' :: s) = some (.object ms, rest) := by
  have hopen : isBlank '{' = false := rfl
  have hquote : isBlank '"' = false := rfl
  simp [tree?, skipBlanks_cons hopen, skipBlanks_cons hquote, h]

theorem members?_last {fuel : Nat} {k : String} {s rest : List Char} {t : Tree}
    (h : tree? fuel s = some (t, '}' :: rest)) :
    members? (fuel + 1) (text k ++ ':' :: s) = some ([(some k, t)], rest) := by
  have hquote : isBlank '"' = false := rfl
  have hcolon : isBlank ':' = false := rfl
  have hclose : isBlank '}' = false := rfl
  simp [members?, text, skipBlanks_cons hquote, text?_escaped, skipBlanks_cons hcolon, h,
    skipBlanks_cons hclose]

theorem members?_more {fuel : Nat} {k : String} {s r rest : List Char} {t : Tree}
    {ms : List (Option String × Tree)} (h : tree? fuel s = some (t, ',' :: r))
    (hmore : members? fuel r = some (ms, rest)) :
    members? (fuel + 1) (text k ++ ':' :: s) = some ((some k, t) :: ms, rest) := by
  have hquote : isBlank '"' = false := rfl
  have hcolon : isBlank ':' = false := rfl
  have hcomma : isBlank ',' = false := rfl
  simp [members?, text, skipBlanks_cons hquote, text?_escaped, skipBlanks_cons hcolon, h,
    skipBlanks_cons hcomma, hmore]

end Reader

namespace Value

mutual

-- Every number of the value is what is read where it is written.
def Kept : Value → Prop
  | .number n => n.Kept
  | .list items => KeptItems items
  | .object members => KeptMembers members
  | _ => True

def KeptItems : List Value → Prop
  | [] => True
  | v :: items => Kept v ∧ KeptItems items

def KeptMembers : List (String × Value) → Prop
  | [] => True
  | (_, v) :: members => Kept v ∧ KeptMembers members

end

theorem keptItems_iff {items : List Value} : KeptItems items ↔ ∀ v ∈ items, v.Kept := by
  induction items with
  | nil => simp [KeptItems]
  | cons v items ih => simp [KeptItems, ih]

theorem keptMembers_iff {members : List (String × Value)} :
    KeptMembers members ↔ ∀ m ∈ members, m.2.Kept := by
  induction members with
  | nil => simp [KeptMembers]
  | cons m members ih => simp [KeptMembers, ih]

theorem kept_ofPairs {pairs : List (String × Value)} (h : ∀ m ∈ pairs, m.2.Kept) :
    (ofPairs pairs).Kept := by
  refine keptMembers_iff.mpr fun m hm => ?_
  rcases mem_putAll hm with hm | hm
  · exact h m hm
  · cases hm

end Value

namespace Reader

open Writer

theorem closes_compactItems (vs : List Value) (rest : List Char) :
    Closes (compactItems vs ++ ']' :: rest) := by
  cases vs with
  | nil => exact closes_cons (by simp)
  | cons v vs => rw [compactItems]; exact closes_cons (by simp)

theorem closes_compactMembers (ms : List (String × Value)) (rest : List Char) :
    Closes (compactMembers ms ++ '}' :: rest) := by
  cases ms with
  | nil => exact closes_cons (by simp)
  | cons m ms => rw [compactMembers]; exact closes_cons (by simp)

theorem start_compact {v : Value} (h : v.Kept) :
    ∃ c tail, compact v = c :: tail ∧ isBlank c = false ∧ c ≠ ']' := by
  match v with
  | .null | .bool true | .bool false | .text s | .list [] | .list (w :: ws) | .object []
  | .object ((k, w) :: ms) => exact ⟨_, _, rfl, rfl, by simp⟩
  | .number n =>
    obtain ⟨l, hl, -⟩ := h
    obtain ⟨c, tail, hs, hblank, hc⟩ := start_of_literal? hl
    exact ⟨c, tail, by simp [compact, scalar, hs], hblank, hc ']' rfl (by decide)⟩

-- What is written is read back with this much fuel, where it suffices for the text.
structure ReadsBack (fuel : Nat) : Prop where
  tree : ∀ {v : Value}, v.Kept → (compact v).length < fuel → ∀ {rest}, Closes rest →
    tree? fuel (compact v ++ rest) = some (v.toTree, rest)
  items : ∀ {v : Value} {vs : List Value}, v.Kept → Value.KeptItems vs →
    (compact v).length + (compactItems vs).length + 1 < fuel → ∀ rest,
    items? fuel (compact v ++ (compactItems vs ++ ']' :: rest)) =
      some (Value.toTrees (v :: vs), rest)
  members : ∀ {k : String} {v : Value} {ms : List (String × Value)}, v.Kept →
    Value.KeptMembers ms →
    (text k).length + (compact v).length + (compactMembers ms).length + 2 < fuel → ∀ rest,
    members? fuel (text k ++ ':' :: (compact v ++ (compactMembers ms ++ '}' :: rest))) =
      some (Value.toMembers ((k, v) :: ms), rest)

namespace ReadsBack

variable {fuel : Nat} {rest : List Char} {v : Value}

theorem tree_succ (ih : ReadsBack fuel) (h : v.Kept) (hfuel : (compact v).length < fuel + 1)
    (hrest : Closes rest) : tree? (fuel + 1) (compact v ++ rest) = some (v.toTree, rest) := by
  match v with
  | .null => rfl
  | .bool true => rfl
  | .bool false => rfl
  | .number n =>
    obtain ⟨l, hl, hn⟩ := h
    have happ := literal?_append hl hrest
    rw [List.nil_append] at happ
    simp [compact, scalar, tree?_of_literal? happ, hn, Value.toTree]
  | .text s =>
    have htext := text?_escaped s rest
    simp [compact, scalar, text, tree?, skipBlanks, isBlank, htext, Value.toTree]
  | .list [] => rfl
  | .list (v :: vs) =>
    have hlen : (compact v).length + (compactItems vs).length + 1 < fuel := by
      simp only [compact, List.length_append, List.length_cons, List.length_nil] at hfuel
      omega
    have hitems := ih.items h.1 h.2 hlen rest
    obtain ⟨c, tail, hv, hc, hclose⟩ := start_compact h.1
    simp only [compact, hv, List.cons_append, List.append_assoc, List.nil_append] at hitems ⊢
    exact tree?_list hc hclose hitems
  | .object [] => rfl
  | .object ((k, v) :: ms) =>
    have hlen : (text k).length + (compact v).length + (compactMembers ms).length + 2 < fuel := by
      simp only [compact, List.length_append, List.length_cons, List.length_nil] at hfuel
      omega
    have hmembers := ih.members (k := k) h.1 h.2 hlen rest
    simp only [compact, text, List.cons_append, List.append_assoc, List.nil_append]
      at hmembers ⊢
    exact tree?_object hmembers

theorem items_succ (ih : ReadsBack fuel) {vs : List Value} (h : v.Kept)
    (hs : Value.KeptItems vs)
    (hfuel : (compact v).length + (compactItems vs).length + 1 < fuel + 1) :
    items? (fuel + 1) (compact v ++ (compactItems vs ++ ']' :: rest)) =
      some (Value.toTrees (v :: vs), rest) := by
  have hv := ih.tree h (by omega) (closes_compactItems vs rest)
  cases vs with
  | nil => exact items?_last hv
  | cons w ws =>
    have hlen : (compact w).length + (compactItems ws).length + 1 < fuel := by
      simp only [compactItems, List.length_append, List.length_cons] at hfuel
      omega
    have hws := ih.items hs.1 hs.2 hlen rest
    simp only [compactItems, List.cons_append, List.append_assoc] at hv ⊢
    exact items?_more hv hws

theorem members_succ (ih : ReadsBack fuel) {k : String} {ms : List (String × Value)}
    (h : v.Kept) (hs : Value.KeptMembers ms)
    (hfuel : (text k).length + (compact v).length + (compactMembers ms).length + 2 < fuel + 1) :
    members? (fuel + 1) (text k ++ ':' :: (compact v ++ (compactMembers ms ++ '}' :: rest))) =
      some (Value.toMembers ((k, v) :: ms), rest) := by
  have hv := ih.tree h (by omega) (closes_compactMembers ms rest)
  cases ms with
  | nil => exact members?_last hv
  | cons m ms =>
    obtain ⟨j, w⟩ := m
    have hlen : (text j).length + (compact w).length + (compactMembers ms).length + 2 < fuel := by
      simp only [compactMembers, List.length_append, List.length_cons] at hfuel
      omega
    have hmore := ih.members (k := j) hs.1 hs.2 hlen rest
    simp only [compactMembers, List.cons_append, List.append_assoc] at hv ⊢
    exact members?_more hv hmore

end ReadsBack

theorem readsBack (fuel : Nat) : ReadsBack fuel := by
  induction fuel with
  | zero => constructor <;> intros <;> omega
  | succ fuel ih =>
    exact {
      tree := fun h hfuel _ hrest => ih.tree_succ h hfuel hrest
      items := fun h hs hfuel _ => ih.items_succ h hs hfuel
      members := fun h hs hfuel _ => ih.members_succ h hs hfuel }

end Reader

theorem Tree.read?_compact {v : Value} (h : v.Kept) :
    Tree.read? (Writer.compact v) = some v.toTree := by
  have hread := (Reader.readsBack _).tree h (Nat.lt_succ_self _) Reader.closes_nil
  rw [List.append_nil] at hread
  simp [Tree.read?, hread, Reader.skipBlanks]

end BotConsole.Json
