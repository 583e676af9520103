import BotConsole.Form.Item
import BotConsole.Proofs.Json.Depth

namespace BotConsole.Form

open Json

namespace Item

variable {t : Tree} {i : Item}

theorem ofTree?_eq_some_iff :
    ofTree? t = some i ↔
      ∃ id name kind default required label description options accept,
        Record.fields? fieldNames t =
          some [id, name, kind, default, required, label, description, options, accept] ∧
        Record.orElse "" Record.text? id = some i.id ∧
        Record.orElse "" Record.text? name = some i.name ∧
        Record.orElse .unknown kindOfTree? kind = some i.kind ∧
        Record.orElse .null Tree.value? default = some i.default ∧
        Record.orElse false Record.bool? required = some i.required ∧
        Record.orElse .empty LocalizedText.ofTree? label = some i.label ∧
        Record.nullable LocalizedText.ofTree? description = some i.description ∧
        Record.orElse [] (Record.list? Choice.ofTree?) options = some i.options ∧
        Record.nullable Record.text? accept = some i.accept := by
  constructor
  · intro h
    simp only [ofTree?, Option.bind_eq_bind, Option.bind_eq_some_iff] at h
    obtain ⟨fields, hfields, h⟩ := h
    split at h
    · simp only [Option.bind_eq_some_iff, Option.some.injEq] at h
      obtain ⟨_, hid, _, hname, _, hkind, _, hdefault, _, hrequired, _, hlabel, _, hdescription, _,
        hoptions, _, haccept, rfl⟩ := h
      exact ⟨_, _, _, _, _, _, _, _, _, hfields, hid, hname, hkind, hdefault, hrequired, hlabel,
        hdescription, hoptions, haccept⟩
    · cases h
  · rintro ⟨id, name, kind, default, required, label, description, options, accept, hfields, hid,
      hname, hkind, hdefault, hrequired, hlabel, hdescription, hoptions, haccept⟩
    simp [ofTree?, hfields, hid, hname, hkind, hdefault, hrequired, hlabel, hdescription, hoptions,
      haccept]

theorem default_of_ofTree? (h : ofTree? t = some i) :
    i.default.Ordered ∧ i.default.toTree.depth ≤ (Record.readPart shape t).depth - 1 := by
  obtain ⟨_, _, _, default, _, _, _, _, _, hfields, -, -, -, hdefault, -⟩ :=
    ofTree?_eq_some_iff.mp h
  cases default with
  | none =>
    rw [← Option.some.inj hdefault]
    exact ⟨trivial, Nat.zero_le _⟩
  | some u =>
    have hdepth := Tree.depth_of_value? hdefault
    have hlt : u.depth < (Record.readPart shape t).depth :=
      Record.depth_part_lt shape hfields (i := 3) rfl rfl rfl
    exact ⟨Value.ordered_of_value? hdefault, by omega⟩

end Item

namespace Schema

variable {s : Schema} {t : Tree} {text : List Char}

theorem prunes_readPart : Record.Prunes readPart := by
  have hchoice : Record.Prunes (Record.readPart Choice.shape) :=
    Record.prunes_readPart (by simp [Choice.shape, Record.prunes_id])
  refine Record.prunes_listPart (Record.prunes_readPart fun f hf => ?_)
  obtain ⟨name, -, rfl⟩ := List.mem_map.mp hf
  intro t
  dsimp only
  split
  · exact Record.prunes_listPart hchoice t
  · exact le_rfl

theorem ofJson?_eq_ofTree? (hread : Tree.read? text = some t) (hdepth : t.depth ≤ Tree.maxDepth) :
    ofJson? text = ofTree? t := by
  simp [ofJson?, hread, (prunes_readPart t).trans hdepth]

theorem default_of_ofJson? (h : ofJson? text = some s) :
    ∀ i ∈ s, i.default.Ordered ∧ i.default.toTree.depth ≤ 125 := by
  simp only [ofJson?, Option.bind_eq_bind, Option.bind_eq_some_iff] at h
  obtain ⟨t, -, h⟩ := h
  split at h
  · next hdepth =>
    obtain ⟨items, rfl, hitems⟩ := Record.list?_eq_some_iff.mp h
    intro i hi
    obtain ⟨n, hn, rfl⟩ := List.getElem_of_mem hi
    have hn' : n < items.length := hitems.length_eq ▸ hn
    have hread : Item.ofTree? items[n] = some s[n] := hitems.get hn' hn
    obtain ⟨hordered, hdefault⟩ := Item.default_of_ofTree? hread
    have hitem : (Record.readPart Item.shape items[n]).depth < (readPart (.list items)).depth :=
      Tree.depth_lt_of_mem_list (List.mem_map_of_mem (List.getElem_mem hn'))
    have hmax : Tree.maxDepth = 127 := rfl
    exact ⟨hordered, by omega⟩
  · cases h

end Schema

end BotConsole.Form
