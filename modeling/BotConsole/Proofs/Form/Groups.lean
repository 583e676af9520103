import BotConsole.Proofs.Form.Edits

namespace BotConsole.Form

open Json

namespace Visibility

variable {a b name : String}

theorem inGroup_iff : inGroup a name = true ↔ a ≠ "" ∧ (a ++ "-").toList <+: name.toList := by
  rw [inGroup, Bool.and_eq_true, List.isPrefixOf_iff_prefix, String.toList_append]
  simp

theorem grouped_iff {shared : List String} {i : Item} :
    grouped shared i a = true ↔ i.name ∈ shared ∨ inGroup a i.name = true := by
  rw [grouped, Bool.or_eq_true, List.contains_iff_mem]

theorem grouped_iff_of_notMem {shared : List String} {i : Item} (h : i.name ∉ shared) :
    grouped shared i a = true ↔ inGroup a i.name = true := by
  rw [grouped_iff, or_iff_right h]

theorem prefix_of_inGroup (h : inGroup a name = true) : a.toList <+: name.toList := by
  refine List.IsPrefix.trans ⟨['-'], ?_⟩ (inGroup_iff.mp h).2
  simp

-- The shorter of two authentication types with a common name, and the dash behind it, stand at the
-- front of the longer one.
theorem nested_of_length_lt (ha : inGroup a name = true) (hb : inGroup b name = true)
    (hlt : a.toList.length < b.toList.length) : (a ++ "-").toList <+: b.toList := by
  apply List.prefix_of_prefix_length_le (inGroup_iff.mp ha).2 (prefix_of_inGroup hb)
  rw [String.toList_append, List.length_append]
  exact hlt

theorem eq_of_inGroup (ha : inGroup a name = true) (hb : inGroup b name = true)
    (hlength : a.toList.length = b.toList.length) : a = b := by
  have hprefix : (a ++ "-").toList <+: (b ++ "-").toList := by
    apply List.prefix_of_prefix_length_le (inGroup_iff.mp ha).2 (inGroup_iff.mp hb).2
    simp only [String.toList_append, List.length_append, hlength, Nat.le_refl]
  have hsame : (a ++ "-").toList = (b ++ "-").toList := by
    apply hprefix.eq_of_length
    simp only [String.toList_append, List.length_append, hlength]
  rw [String.toList_append, String.toList_append] at hsame
  exact String.toList_inj.mp (List.append_cancel_right hsame)

theorem nested_of_inGroup (ha : inGroup a name = true) (hb : inGroup b name = true) (hne : a ≠ b) :
    (a ++ "-").toList <+: b.toList ∨ (b ++ "-").toList <+: a.toList := by
  rcases Nat.lt_trichotomy a.toList.length b.toList.length with hlt | heq | hgt
  · exact .inl (nested_of_length_lt ha hb hlt)
  · exact absurd (eq_of_inGroup ha hb heq) hne
  · exact .inr (nested_of_length_lt hb ha hgt)

theorem inGroup_of_nested (ha : a ≠ "") (h : (a ++ "-").toList <+: b.toList)
    (hb : inGroup b name = true) : inGroup a name = true :=
  inGroup_iff.mpr ⟨ha, h.trans (prefix_of_inGroup hb)⟩

theorem not_inGroup_of_dashless (ha : '-' ∉ a.toList) (hb : '-' ∉ b.toList) (hne : a ≠ b)
    (hname : inGroup a name = true) : inGroup b name = false := by
  rw [Bool.eq_false_iff]
  intro hname'
  rcases nested_of_inGroup hname hname' hne with h | h
  · exact hb (h.subset (by simp))
  · exact ha (h.subset (by simp))

end Visibility

theorem Schema.mem_visible_grouped {schema : Schema} {shared : List String} {authType : String}
    {i : Item} : i ∈ schema.visible (.grouped shared) authType ↔
      i ∈ schema ∧ (i.name ∈ shared ∨ Visibility.inGroup authType i.name = true) := by
  rw [Schema.visible, List.mem_filter, Visibility.grouped_iff]

theorem Schema.visible_grouped_empty (schema : Schema) (shared : List String) :
    schema.visible (.grouped shared) "" = schema.filter (·.name ∈ shared) := by
  apply List.filter_congr
  intro i _
  simp [Visibility.grouped, Visibility.inGroup]

namespace Session

variable {schema : Schema} {shared : List String}

theorem visible_after (schema : Schema) (visibility : Visibility) (edits : List Edit) :
    let s := (start schema visibility).after edits
    s.visible = (schema.visible visibility s.authType).map Item.name := by
  intro s
  have hs : s = .showing schema visibility _ := after_start schema visibility edits
  rw [hs]
  rfl

theorem shown_after {edits : List Edit} {name : String}
    (h : name ∈ ((start schema (.grouped shared)).after edits).visible) : name ∈ shared ∨
      Visibility.inGroup ((start schema (.grouped shared)).after edits).authType name = true := by
  rw [visible_after] at h
  obtain ⟨i, hi, rfl⟩ := List.mem_map.mp h
  exact (Schema.mem_visible_grouped.mp hi).2

theorem authType_set (s : Session) (authType : String) :
    (s.set Visibility.authField (.text authType)).1.authType = authType := by
  show authTypeOf (s.values.insert "auth-type" (.text authType)) = authType
  rw [authTypeOf_eq, Dict.get?_insert, if_pos rfl]

end Session

-- A field that is not always shown is shown under two types only if one of them continues the
-- other one behind a dash. So none is shown under two types without dashes.
theorem groups_are_separate (shared : List String) :
    let shows := Visibility.grouped shared
    (∀ (i : Item) (a b : String), a ≠ b → i.name ∉ shared → shows i a = true → shows i b = true →
      (a ++ "-").toList <+: b.toList ∨ (b ++ "-").toList <+: a.toList) ∧
    (∀ a b : String, a ≠ "" → (a ++ "-").toList <+: b.toList →
      ∀ i, shows i b = true → shows i a = true) ∧
    (∀ (schema : Schema) (a b : String), a ≠ b → '-' ∉ a.toList → '-' ∉ b.toList →
      ∀ i ∈ schema.visible shows a, i ∈ schema.visible shows b → i.name ∈ shared) ∧
    (∀ schema : Schema, schema.visible shows "" = schema.filter (·.name ∈ shared)) ∧
    ∀ (schema : Schema) (edits : List Edit),
      let s := (Session.start schema shows).after edits
      (s.authType = "" → s.visible = (schema.filter (·.name ∈ shared)).map Item.name) ∧
      (∀ b, (s.after [.set "auth-type" (.text b)]).authType = b) ∧
      ∀ more : List Edit,
        let s' := s.after more
        s.authType ≠ s'.authType → '-' ∉ s.authType.toList → '-' ∉ s'.authType.toList →
        ∀ name ∈ s.visible, name ∉ shared → s'.shows name = false := by
  intro shows
  refine ⟨fun i a b hne hi ha hb => ?_, fun a b ha hnested i hb => ?_,
    fun schema a b hne ha hb i hi hi' => ?_,
    fun schema => Schema.visible_grouped_empty schema shared, fun schema edits => ?_⟩
  · exact Visibility.nested_of_inGroup ((Visibility.grouped_iff_of_notMem hi).mp ha)
      ((Visibility.grouped_iff_of_notMem hi).mp hb) hne
  · rw [Visibility.grouped_iff] at hb ⊢
    exact hb.imp_right (Visibility.inGroup_of_nested ha hnested)
  · by_contra hother
    have hina := (Schema.mem_visible_grouped.mp hi).2.resolve_left hother
    have hinb := (Schema.mem_visible_grouped.mp hi').2.resolve_left hother
    rw [Visibility.not_inGroup_of_dashless ha hb hne hina] at hinb
    cases hinb
  · intro s
    refine ⟨fun hempty => ?_, s.authType_set, ?_⟩
    · rw [Session.visible_after, hempty, Schema.visible_grouped_empty]
    · intro more s' hne ha hb name hname hother
      have hs' : s' = (Session.start schema shows).after (edits ++ more) :=
        List.foldl_append.symm
      have hina := (Session.shown_after hname).resolve_left hother
      rw [Bool.eq_false_iff, ne_eq, Session.shows_iff, hs']
      intro hname'
      have hinb := (Session.shown_after hname').resolve_left hother
      rw [← hs', Visibility.not_inGroup_of_dashless ha hb hne hina] at hinb
      cases hinb

def groupedForm : Schema :=
  [.ofName "timeout" .integer, { Item.ofName "auth-type" .choice with default := .text "clé" },
    .ofName "clé-a-user" .shortText, .ofName "cléa-token" .shortText]

theorem groups_are_separate_nested :
    let s := Session.start groupedForm (.grouped Visibility.sharedFields)
    let i := Item.ofName "clé-a-user" .shortText
    (("clé-a" ++ "-").toList <+: "clé".toList ∨ ("clé" ++ "-").toList <+: "clé-a".toList) ∧
      Visibility.grouped Visibility.sharedFields i "clé" = true ∧
      groupedForm[0].name ∈ Visibility.sharedFields ∧
      s.visible = ["timeout", "auth-type", "clé-a-user"] ∧
      (s.after [.set "auth-type" (.text "cléa")]).shows "clé-a-user" = false ∧
      (s.after [.set "auth-type" (.text "")]).visible = ["timeout", "auth-type"] := by
  intro s i
  obtain ⟨hnested, hpart, hdisjoint, -, hform⟩ := groups_are_separate Visibility.sharedFields
  have hshown : Visibility.grouped Visibility.sharedFields i "clé-a" = true := by decide +kernel
  have hpart := hpart "clé" "clé-a" (by decide) ⟨['a'], by decide +kernel⟩ i hshown
  have hvisible : s.visible = ["timeout", "auth-type", "clé-a-user"] := by decide +kernel
  have htype : s.authType = "clé" := by decide +kernel
  obtain ⟨-, hset, hhidden⟩ := hform groupedForm []
  have hset : ∀ b, (s.after [.set "auth-type" (.text b)]).authType = b := hset
  have hhidden := hhidden [.set "auth-type" (.text "cléa")]
  have hempty := (hform groupedForm [.set "auth-type" (.text "")]).1 (hset "")
  have hdisjoint := hdisjoint groupedForm "clé" "cléa" (by decide) (by decide) (by decide)
    groupedForm[0] (Schema.mem_visible_grouped.mpr ⟨List.getElem_mem _, .inl (by decide)⟩)
    (Schema.mem_visible_grouped.mpr ⟨List.getElem_mem _, .inl (by decide)⟩)
  refine ⟨hnested i "clé-a" "clé" (by decide) (by decide) hshown hpart, hpart, hdisjoint,
    hvisible, ?_, hempty.trans (by decide +kernel)⟩
  apply hhidden
  · show s.authType ≠ (s.after [.set "auth-type" (.text "cléa")]).authType
    rw [htype, hset]
    decide
  · show '-' ∉ s.authType.toList
    rw [htype]
    decide
  · show '-' ∉ (s.after [.set "auth-type" (.text "cléa")]).authType.toList
    rw [hset]
    decide
  · show "clé-a-user" ∈ s.visible
    rw [hvisible]
    decide
  · decide

end BotConsole.Form
