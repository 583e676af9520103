import BotConsole.Proofs.Version.Order
import BotConsole.Proofs.Version.Parts

namespace BotConsole.Version

open Text

-- The versions that are the meaning of some text.
structure WellFormed (v : Version) : Prop where
  ne_nil : v.segments ≠ []
  le_max : ∀ n ∈ v.segments, n ≤ maxUnsigned64

theorem wellFormed_ofChars (s : List Char) : (ofChars s).WellFormed := by
  obtain ⟨numbers, rest, rfl, hnumbers, hrest⟩ := exists_numbers s
  rw [ofChars_append hnumbers hrest]
  constructor
  · simpa using splitOn_ne_nil '.' (dropLetter numbers)
  · intro n hn
    obtain ⟨piece, -, rfl⟩ := List.mem_map.mp hn
    exact segmentValue_le piece

def numberChars (v : Version) : List Char :=
  joinWith ['.'] (v.segments.map (Nat.toDigits 10))

def suffixChars : Option String → List Char
  | none => []
  | some suffix => '-' :: suffix.toList

theorem toChars_eq (v : Version) : v.toChars = v.numberChars ++ suffixChars v.suffix := by
  unfold toChars
  cases v.suffix with
  | none => exact (List.append_nil _).symm
  | some suffix => rfl

theorem followsNumbers_suffixChars (suffix : Option String) :
    FollowsNumbers (suffixChars suffix) := by
  cases suffix with
  | none => nofun
  | some suffix => exact fun c hc => (Option.some.inj hc).symm

theorem suffixOf_suffixChars (suffix : Option String) : suffixOf (suffixChars suffix) = suffix := by
  cases suffix with
  | none => rfl
  | some suffix => exact congrArg some String.ofList_toList

variable {v : Version}

theorem mem_numberChars {c : Char} (hc : c ∈ v.numberChars) : c.isDigit = true ∨ c = '.' := by
  rcases mem_joinWith hc with hdot | ⟨piece, hpiece, hmem⟩
  · exact .inr (List.mem_singleton.mp hdot)
  · obtain ⟨n, -, rfl⟩ := List.mem_map.mp hpiece
    exact .inl (isDigit_of_mem_toDigits hmem)

theorem dash_notMem_numberChars : '-' ∉ v.numberChars := by
  intro h
  rcases mem_numberChars h with h | h <;> cases h

theorem letterless_numberChars : Letterless v.numberChars := by
  intro c hc
  have hplain := mem_numberChars (List.mem_of_mem_head? hc)
  constructor
  all_goals
    rintro rfl
    rcases hplain with h | h <;> cases h

theorem splitOn_numberChars (h : v.segments ≠ []) :
    splitOn '.' v.numberChars = v.segments.map (Nat.toDigits 10) := by
  refine splitOn_joinWith (by simpa using h) fun piece hpiece hdot => ?_
  obtain ⟨n, -, rfl⟩ := List.mem_map.mp hpiece
  have hdigit := isDigit_of_mem_toDigits hdot
  cases hdigit

theorem ofChars_toChars (h : v.WellFormed) : ofChars v.toChars = v := by
  have hsegments : (v.segments.map (Nat.toDigits 10)).map segmentValue = v.segments := by
    calc (v.segments.map (Nat.toDigits 10)).map segmentValue
        = v.segments.map (segmentValue ∘ Nat.toDigits 10) := List.map_map
      _ = v.segments.map id :=
        List.map_congr_left fun n hn => segmentValue_toDigits (h.le_max n hn)
      _ = v.segments := List.map_id _
  rw [toChars_eq, ofChars_append dash_notMem_numberChars (followsNumbers_suffixChars _),
    dropLetter_of_letterless letterless_numberChars, splitOn_numberChars h.ne_nil, hsegments,
    suffixOf_suffixChars]

theorem parse_toString (s : String) : parse (toString (parse s)) = parse s := by
  show ofChars (String.ofList (ofChars s.toList).toChars).toList = ofChars s.toList
  rw [String.toList_ofList, ofChars_toChars (wellFormed_ofChars _)]

theorem toString_ne_empty (h : v.segments ≠ []) : toString v ≠ "" := by
  have hne : v.numberChars ≠ [] := by
    intro hnil
    have hsplit := splitOn_numberChars h
    rw [hnil] at hsplit
    have hmem : [] ∈ v.segments.map (Nat.toDigits 10) := hsplit ▸ List.mem_singleton_self []
    obtain ⟨n, -, hn⟩ := List.mem_map.mp hmem
    exact Nat.toDigits_ne_nil hn
  show String.ofList v.toChars ≠ ""
  rw [Ne, String.ofList_eq_empty_iff, toChars_eq]
  exact List.append_ne_nil_of_left_ne_nil hne _

-- Printing what is read from a printed version changes nothing, and a printed version is newer
-- than the same texts as the text it was read from.
theorem printed_versions_read_back (s t : String) :
    parse (toString (parse s)) = parse s ∧
    toString (parse (toString (parse s))) = toString (parse s) ∧
    (s ≠ "" → isNewer (toString (parse s)) t = isNewer s t ∧
      isNewer t (toString (parse s)) = isNewer t s) := by
  have hparse := parse_toString s
  refine ⟨hparse, congrArg toString hparse, fun hs => ?_⟩
  have hequal : (parse s).compare (parse (toString (parse s))) = .eq := by
    rw [hparse]
    exact compare_eq_eq_iff.mpr rfl
  exact isNewer_congr hs (toString_ne_empty (wellFormed_ofChars _).ne_nil) hequal t

-- Without digits there is no number, beyond the range the last one of it, and a suffix may hold
-- anything.
theorem printed_versions_read_back_mangled :
    toString (parse "V+07..x.99999999999999999999--rc.01-") =
      "7.0.0.18446744073709551615--rc.01-" ∧
    isNewer "V+07..x.99999999999999999999--rc.01-" "7.0.0.18446744073709551614" =
      isNewer "7.0.0.18446744073709551615--rc.01-" "7.0.0.18446744073709551614" := by
  have hprinted : toString (parse "V+07..x.99999999999999999999--rc.01-") =
      "7.0.0.18446744073709551615--rc.01-" := by
    decide
  obtain ⟨-, -, hnewer⟩ := printed_versions_read_back "V+07..x.99999999999999999999--rc.01-"
    "7.0.0.18446744073709551614"
  rw [hprinted] at hnewer
  exact ⟨hprinted, (hnewer (by decide)).1.symm⟩

end BotConsole.Version
