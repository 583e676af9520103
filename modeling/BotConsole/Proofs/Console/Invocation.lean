import BotConsole.Console.Invocation
import BotConsole.Proofs.Text.Digits
import Mathlib.Data.List.TakeWhile

namespace BotConsole.Console

namespace Level

variable {l : Level} {w : Words} {word : String} {rest : List String}

theorem splitValue_append {name : String} (hname : '=' ∉ name.toList) (value : String) :
    splitValue (name.toList ++ '=' :: value.toList) = (name, some value) := by
  have hall : ∀ c ∈ name.toList, (c != '=') = true := by
    intro c hc
    simp only [bne_iff_ne, ne_eq]
    rintro rfl
    exact hname hc
  have htake : (name.toList ++ '=' :: value.toList).takeWhile (· != '=') = name.toList := by
    rw [List.takeWhile_append_of_pos hall]
    simp
  have hdrop : (name.toList ++ '=' :: value.toList).dropWhile (· != '=') =
      '=' :: value.toList := by
    rw [List.dropWhile_append_of_pos hall]
    rfl
  simp only [splitValue, htake, hdrop, String.ofList_toList]

theorem option?_eq_none (h : isValue word = true) : l.option? word.toList = none := by
  unfold option?
  split
  · next name hword =>
    have hdash : word ≠ "-" := by
      rintro rfl
      cases hword
    simp [isValue, hword, hdash] at h
  · rfl

theorem read_command (h : l.commands.contains word = true) :
    l.read false w (word :: rest) = .ok { w with next := some (word, rest) } := by
  rw [read.eq_def]
  simp [List.contains_iff_mem.mp h]

-- Where no commands follow, a word that is complete in itself is an operand or a switch.
theorem read_word (hleaf : l.commands = []) (hdashes : word ≠ "--")
    (hoption : l.option? word.toList = none) :
    l.read false w (word :: rest) =
      (if isValue word then l.operand w word else l.switch w word.toList).bind
        (l.read false · rest) := by
  rw [read.eq_def]
  simp only [hleaf, hoption]
  cases isValue word <;> simp [hdashes] <;> rfl

theorem read_operand (hleaf : l.commands = []) (hword : isValue word = true)
    {accepts : String → Bool} (hslot : l.operands[w.operands.length]? = some accepts)
    (haccepts : accepts word = true) :
    l.read false w (word :: rest) =
      l.read false { w with operands := w.operands ++ [word] } rest := by
  have hdashes : word ≠ "--" := by
    rintro rfl
    cases hword
  have hoperand : l.operand w word = .ok { w with operands := w.operands ++ [word] } := by
    simp only [operand, hslot, if_pos haccepts]
  rw [read_word hleaf hdashes (option?_eq_none hword), if_pos hword, hoperand]
  rfl

theorem read_joined (hleaf : l.commands = []) (hnames : ∀ s ∈ l.switches, '=' ∉ s.name.toList)
    {s : Switch} (hs : l.switches.find? (·.name == s.name) = some s)
    {accepts : String → Bool} (haccepts : s.accepts = some accepts) {value : String}
    (hvalue : accepts value = true) (hnew : w.has s.name = false) :
    l.read false w (("--" ++ s.name ++ "=" ++ value) :: rest) =
      l.read false { w with values := w.values ++ [(s.name, value)] } rest := by
  have hname : '=' ∉ s.name.toList := hnames s (List.mem_of_find?_eq_some hs)
  generalize hjoined : "--" ++ s.name ++ "=" ++ value = word
  have hword : word.toList = '-' :: '-' :: (s.name.toList ++ '=' :: value.toList) := by
    simp [← hjoined, String.toList_append]
  have hdashes : word ≠ "--" := by
    rintro rfl
    simp at hword
  have hswitchlike : isValue word = false := by
    have hdash : word ≠ "-" := by
      rintro rfl
      simp at hword
    simp [isValue, hword, hdash]
  have hoption : l.option? word.toList = none := by
    rw [hword]
    apply List.find?_eq_none.mpr
    intro t ht hsame
    have hlist : t.name.toList = s.name.toList ++ '=' :: value.toList := by
      simpa using (Bool.and_eq_true_iff.mp hsame).2
    apply hnames t ht
    simp [hlist]
  have hswitch : l.switch w word.toList =
      .ok { w with values := w.values ++ [(s.name, value)] } := by
    simp [hword, switch, splitValue_append hname, hs, option, haccepts, hvalue, note, hnew]
  rw [read_word hleaf hdashes hoption, hswitchlike, if_neg Bool.false_ne_true, hswitch]
  rfl

theorem read_dashes (hleaf : l.commands = []) :
    l.read false w ("--" :: rest) = l.read true w rest := by
  rw [read.eq_def]
  simp [hleaf]

theorem read_literal {accepts : String → Bool}
    (hslot : l.operands[w.operands.length]? = some accepts) (haccepts : accepts word = true) :
    l.read true w (word :: rest) =
      l.read true { w with operands := w.operands ++ [word] } rest := by
  have hoperand : l.operand w word = .ok { w with operands := w.operands ++ [word] } := by
    simp only [operand, hslot, if_pos haccepts]
  rw [read.eq_def]
  simp only [if_true, hoperand]
  rfl

end Level

namespace Invocation

theorem ofArguments_cons {name verb : String} {rest : List String} {level : Level} {w : Words}
    {command : Command} (hname : root.commands.contains name = true)
    (hverb : (area name).lookup verb = some level) (hread : level.read false {} rest = .ok w)
    (hcommand : command? name verb w = some command) :
    ofArguments (name :: verb :: rest) = .ok (ofWords [w] command) := by
  have hverbs : ((area name).map (·.1)).contains verb = true := by
    obtain ⟨before, behind, hsplit, -⟩ := List.lookup_eq_some_iff.mp hverb
    simp [hsplit]
  have htop : root.read false {} (name :: verb :: rest) =
      .ok { next := some (name, verb :: rest) } := Level.read_command hname
  have hmiddle : (group ((area name).map (·.1))).read false {} (verb :: rest) =
      .ok { next := some (verb, rest) } := Level.read_command hverbs
  simp only [ofArguments, htop, hmiddle, hverb, hread, hcommand, bind, Except.bind]
  rfl

variable {path : String}

theorem ofArguments_validate {valuesPath : String} (hpath : isPath path = true)
    (hplain : Level.isValue path = true) (hpath' : isPath valuesPath = true)
    (hplain' : Level.isValue valuesPath = true) :
    ofArguments ["form", "validate", path, valuesPath] =
      .ok ⟨false, none, none, .validateValues path valuesPath⟩ := by
  have hread : (leaf [isPath, isPath]).read false {} [path, valuesPath] =
      .ok { operands := [path, valuesPath] } := by
    rw [Level.read_operand rfl hplain rfl hpath, Level.read_operand rfl hplain' rfl hpath']
    rfl
  exact ofArguments_cons (by decide) rfl hread rfl

theorem ofArguments_visible (hpath : isPath path = true) (hplain : Level.isValue path = true)
    (authType : String) :
    ofArguments ["form", "visible", path, "--auth-type=" ++ authType] =
      .ok ⟨false, none, none, .listVisible path authType⟩ := by
  let authSwitch : Switch := { name := "auth-type", accepts := some anyText }
  have hread : (leaf [isPath] [authSwitch]).read false {} [path, "--auth-type=" ++ authType] =
      .ok { values := [("auth-type", authType)], operands := [path] } := by
    rw [Level.read_operand rfl hplain rfl hpath]
    exact Level.read_joined (s := authSwitch) rfl (by decide) rfl rfl rfl rfl
  exact ofArguments_cons (by decide) rfl hread rfl

-- Every task can be watched, also one whose number is negative.
theorem ofArguments_watch {task : Int} (hlow : -(2 ^ 63) ≤ task) (hhigh : task < 2 ^ 63)
    (url : String) (interval : UInt64) :
    ofArguments ["task", "watch", "--base-url=" ++ url, "--interval-ms=" ++ toString interval.toNat,
        "--", toString task] =
      .ok ⟨false, none, some url, .watchTask task (some interval)⟩ := by
  have htask : taskNumber? (toString task) = some task := by
    rw [taskNumber?, ← Text.integerText_eq, Text.signed64?_integerText hlow hhigh]
  have hinterval : duration? (toString interval.toNat) = some interval := by
    have hdigits : (toString interval.toNat).toList = Nat.toDigits 10 interval.toNat :=
      String.toList_ofList
    rw [duration?, hdigits, Text.unsigned64?_toDigits interval.toNat_lt, Option.map_some,
      UInt64.ofNat_toNat]
  let urlSwitch : Switch := { name := "base-url", accepts := some anyText }
  let intervalSwitch : Switch :=
    { name := "interval-ms", accepts := some fun s => (duration? s).isSome }
  let level := leaf [fun s => (taskNumber? s).isSome] [intervalSwitch]
  let joined := "--interval-ms=" ++ toString interval.toNat
  have hurl : level.read false {} ["--base-url=" ++ url, joined, "--", toString task] =
      level.read false { values := [("base-url", url)] } [joined, "--", toString task] :=
    Level.read_joined (s := urlSwitch) rfl (by decide) rfl rfl rfl rfl
  have hms : level.read false { values := [("base-url", url)] } [joined, "--", toString task] =
      level.read false { values := [("base-url", url), ("interval-ms", toString interval.toNat)] }
        ["--", toString task] :=
    Level.read_joined (s := intervalSwitch) rfl (by decide) rfl rfl (by rw [hinterval]; rfl) rfl
  have hread : level.read false {} ["--base-url=" ++ url, joined, "--", toString task] =
      .ok { values := [("base-url", url), ("interval-ms", toString interval.toNat)],
            operands := [toString task] } := by
    rw [hurl, hms, Level.read_dashes rfl, Level.read_literal rfl (by rw [htask]; rfl)]
    rfl
  refine ofArguments_cons (by decide) rfl hread ?_
  show (taskNumber? (toString task)).map
    (Command.watchTask · ((some (toString interval.toNat)).bind duration?)) = _
  rw [htask, Option.bind_some, hinterval]
  rfl

end Invocation

end BotConsole.Console
