namespace BotConsole.Text

-- The characters with the Unicode property White_Space.
def isBlank (c : Char) : Bool :=
  let n := c.toNat
  (9 ≤ n && n ≤ 13) || n == 0x20 || n == 0x85 || n == 0xA0 || n == 0x1680 ||
    (0x2000 ≤ n && n ≤ 0x200A) || n == 0x2028 || n == 0x2029 || n == 0x202F ||
    n == 0x205F || n == 0x3000

def trim (s : List Char) : List Char :=
  ((s.dropWhile isBlank).reverse.dropWhile isBlank).reverse

def allBlank (s : String) : Bool :=
  s.toList.all isBlank

@[simp] theorem allBlank_append (s t : String) :
    allBlank (s ++ t) = (allBlank s && allBlank t) := by
  simp [allBlank]

theorem trim_eq_nil_iff {s : List Char} : trim s = [] ↔ s.all isBlank = true := by
  have drop : ∀ t : List Char, t.dropWhile isBlank = [] ↔ t.all isBlank = true := by
    intro t
    induction t with
    | nil => simp
    | cons c t ih => by_cases h : isBlank c = true <;> simp_all
  have last : ∀ t : List Char, t.dropWhile isBlank = [] ∨
      (t.dropWhile isBlank).any (fun c => !isBlank c) = true := by
    intro t
    induction t with
    | nil => simp
    | cons c t ih => by_cases h : isBlank c = true <;> simp_all
  simp only [trim, List.reverse_eq_nil_iff, drop, List.all_reverse]
  cases last s with
  | inl h => simp [h, (drop s).1 h]
  | inr h =>
    constructor
    · intro hall
      simp only [List.any_eq_true, List.all_eq_true, Bool.not_eq_true'] at h hall
      obtain ⟨c, hc, hb⟩ := h
      simp [hall c hc] at hb
    · intro hall
      rw [(drop s).2 hall]
      rfl

end BotConsole.Text
