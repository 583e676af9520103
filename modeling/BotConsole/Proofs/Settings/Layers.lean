import BotConsole.Poll.Poller
import BotConsole.Proofs.Settings.Reading
import BotConsole.Proofs.Text.Digits
import BotConsole.Settings.Effective
import Mathlib.Data.List.DropRight

namespace BotConsole

namespace Task.Client

theorem trimSlashes_eq (s : List Char) : trimSlashes s = s.rdropWhile (· == '/') := rfl

theorem trimSlashes_trimSlashes (s : List Char) :
    trimSlashes (trimSlashes s) = trimSlashes s :=
  List.rdropWhile_idempotent _ s

theorem exists_eq_trimSlashes_append (s : List Char) :
    ∃ n, s = trimSlashes s ++ List.replicate n '/' := by
  have hslashes : ∀ c ∈ s.rtakeWhile (· == '/'), c = '/' := by
    intro c hc
    have hslash := List.mem_rtakeWhile_imp hc
    exact eq_of_beq hslash
  refine ⟨(s.rtakeWhile (· == '/')).length, ?_⟩
  rw [← List.eq_replicate_of_mem hslashes, trimSlashes_eq, List.rdropWhile_append_rtakeWhile]

theorem getLast?_trimSlashes (s : List Char) : (trimSlashes s).getLast? ≠ some '/' := by
  intro h
  obtain ⟨rest, hrest⟩ := List.getLast?_eq_some_iff.mp h
  have hne : s.rdropWhile (· == '/') ≠ [] := by simp [← trimSlashes_eq, hrest]
  have hlast := List.rdropWhile_last_not _ s hne
  simp [← trimSlashes_eq, hrest] at hlast

end Task.Client

namespace Settings

open Toml (Value)
open Toml.Record

-- The first of some layers that has a value decides; where none has one it is the default.
inductive Decides {α : Type} (default : α) : List (Option α) → α → Prop where
  | bottom : Decides default [] default
  | here (v : α) (lower : List (Option α)) : Decides default (some v :: lower) v
  | lower {lower : List (Option α)} {v : α} (h : Decides default lower v) :
    Decides default (none :: lower) v

theorem Decides.eq {α : Type} {default v w : α} {layers : List (Option α)}
    (hv : Decides default layers v) (hw : Decides default layers w) : v = w := by
  induction hv with
  | bottom =>
    cases hw
    rfl
  | here v lower =>
    cases hw
    rfl
  | lower _ ih =>
    cases hw with
    | lower hw => exact ih hw

theorem Decides.getD {α : Type} {default v : α} {lower : List (Option α)}
    (h : Decides default lower v) (upper : Option α) :
    Decides default (upper :: lower) (upper.getD v) := by
  cases upper with
  | none => exact .lower h
  | some u => exact .here u lower

namespace Layers

inductive Setting where
  | baseUrl
  | token
  | interval
  | locale

def Setting.variableName : Setting → String
  | .baseUrl => "BOTDECK_BASE_URL"
  | .token => "BOTDECK_TOKEN"
  | .interval => "BOTDECK_POLL_INTERVAL_MS"
  | .locale => "BOTDECK_LOCALE"

theorem Setting.variableName_injective : Function.Injective variableName := by
  intro s t h
  cases s <;> cases t <;> first | rfl | exact absurd h (by decide)

-- Another word of one layer about one setting.
inductive Change where
  | commandUrl (url : Option String)
  | commandInterval (interval : Option UInt64)
  | environment (s : Setting) (value : Option String)
  | fileUrl (url : String)
  | fileToken (token : Option String)
  | fileInterval (interval : UInt64)
  | fileLocale (code : String)

def Change.setting : Change → Setting
  | .commandUrl _ | .fileUrl _ => .baseUrl
  | .commandInterval _ | .fileInterval _ => .interval
  | .fileToken _ => .token
  | .fileLocale _ => .locale
  | .environment s _ => s

def change (l : Layers) : Change → Layers
  | .commandUrl url => { l with baseUrl := url }
  | .commandInterval interval => { l with interval := interval }
  | .environment s value =>
    { l with
      environment := fun name => if name = s.variableName then value else l.environment name }
  | .fileUrl url => { l with file.backend.baseUrl := url }
  | .fileToken token => { l with file.backend.token := token }
  | .fileInterval interval => { l with file.polling.intervalMs := interval }
  | .fileLocale code => { l with file.display.locale := code }

def SameLayers (l l' : Layers) (s : Setting) : Prop :=
  l.environment s.variableName = l'.environment s.variableName ∧
  match s with
  | .baseUrl => l.baseUrl = l'.baseUrl ∧ l.file.backend.baseUrl = l'.file.backend.baseUrl
  | .token => l.file.backend.token = l'.file.backend.token
  | .interval => l.interval = l'.interval ∧ l.file.polling.intervalMs = l'.file.polling.intervalMs
  | .locale => l.file.display.locale = l'.file.display.locale

def SameResult (l l' : Layers) : Setting → Prop
  | .baseUrl => l.effectiveBaseUrl = l'.effectiveBaseUrl
  | .token => l.effectiveToken = l'.effectiveToken
  | .interval => l.effectiveInterval = l'.effectiveInterval
  | .locale => l.effectiveLocale = l'.effectiveLocale

variable {l l' : Layers} {s : Setting}

theorem SameLayers.result (h : SameLayers l l' s) : SameResult l l' s := by
  obtain ⟨henvironment, h⟩ := h
  cases s with
  | baseUrl =>
    show l.effectiveBaseUrl = l'.effectiveBaseUrl
    simp only [Setting.variableName] at henvironment
    simp only [effectiveBaseUrl, henvironment, h.1, h.2]
  | token =>
    show l.effectiveToken = l'.effectiveToken
    simp only [Setting.variableName] at henvironment
    have hfile : l.file.backend.token = l'.file.backend.token := h
    simp only [effectiveToken, henvironment, hfile]
  | interval =>
    show l.effectiveInterval = l'.effectiveInterval
    simp only [Setting.variableName] at henvironment
    simp only [effectiveInterval, environmentInterval, henvironment, h.1, h.2]
  | locale =>
    show l.effectiveLocale = l'.effectiveLocale
    simp only [Setting.variableName] at henvironment
    have hfile : l.file.display.locale = l'.file.display.locale := h
    simp only [effectiveLocale, henvironment, hfile]

theorem sameLayers_change {c : Change} (h : c.setting ≠ s) : SameLayers (l.change c) l s := by
  cases c with
  | environment t value =>
    have hname : s.variableName ≠ t.variableName := fun heq =>
      h (Setting.variableName_injective heq).symm
    refine ⟨if_neg hname, ?_⟩
    cases s <;> simp [change]
  | _ =>
    refine ⟨rfl, ?_⟩
    cases s <;> first | exact absurd rfl h | simp [change]

theorem SameResult.trans {l'' : Layers} (h : SameResult l l' s) (h' : SameResult l' l'' s) :
    SameResult l l'' s := by
  cases s <;> exact Eq.trans h h'

theorem sameResult_foldl_change (l : Layers) {changes : List Change}
    (h : ∀ c ∈ changes, c.setting ≠ s) : SameResult (changes.foldl change l) l s := by
  induction changes generalizing l with
  | nil => cases s <;> rfl
  | cons c changes ih =>
    have hrest := ih (l.change c) fun d hd => h d (List.mem_cons_of_mem _ hd)
    exact hrest.trans (sameLayers_change (h c List.mem_cons_self)).result

theorem one_le_effectiveInterval (l : Layers) : 1 ≤ l.effectiveInterval := by
  unfold effectiveInterval
  omega

theorem base_client (l : Layers) : l.client.base = l.effectiveBaseUrl := by
  simp [client, Task.Client.new, effectiveBaseUrl, Task.Client.trimSlashes_trimSlashes]

theorem statusUrl_client (l : Layers) (task : Int) : l.client.statusUrl task =
    l.effectiveBaseUrl ++
      String.ofList (Task.Client.path l.file.backend.taskStatusPath.toList task) := by
  rw [Task.Client.statusUrl, base_client]
  rfl

theorem environmentInterval_eq (l : Layers) : l.environmentInterval =
    ((l.environment "BOTDECK_POLL_INTERVAL_MS").bind fun text =>
      Text.unsigned64? text.toList).map UInt64.ofNat := by
  rw [environmentInterval, Option.map_bind]
  rfl

theorem effectiveInterval_of_unusable {text : String}
    (htext : l.environment "BOTDECK_POLL_INTERVAL_MS" = some text)
    (hnone : Text.unsigned64? text.toList = none) :
    l.effectiveInterval = (l.change (.environment .interval none)).effectiveInterval := by
  have hbefore : l.environmentInterval = none := by simp [environmentInterval, htext, hnone]
  have hafter : (l.change (.environment .interval none)).environmentInterval = none := rfl
  simp only [effectiveInterval, hbefore, hafter]
  rfl

theorem effectiveLocale_of_unusable {code : String}
    (hcode : l.environment "BOTDECK_LOCALE" = some code) (hnone : Locale.ofCode? code = none) :
    l.effectiveLocale = (l.change (.environment .locale none)).effectiveLocale := by
  have hbefore : (l.environment "BOTDECK_LOCALE").bind Locale.ofCode? = none := by
    rw [hcode, Option.bind_some, hnone]
  rw [effectiveLocale, hbefore]
  rfl

theorem effectiveToken_of_empty (hempty : l.environment "BOTDECK_TOKEN" = some "") :
    l.effectiveToken = (l.change (.environment .token none)).effectiveToken := by
  rw [effectiveToken, hempty]
  rfl

theorem decides_interval {file? : Option UInt64}
    (hfile : l.file.polling.intervalMs = file?.getD 1000) : ∃ ms,
      Decides 1000 [l.interval.map UInt64.toNat,
        (l.environment "BOTDECK_POLL_INTERVAL_MS").bind fun text => Text.unsigned64? text.toList,
        file?.map UInt64.toNat] ms ∧ l.effectiveInterval = max 1 ms := by
  refine ⟨_, ((Decides.bottom.getD _).getD _).getD _, ?_⟩
  rw [effectiveInterval, Nat.max_comm, environmentInterval_eq]
  refine congrArg (max 1) ?_
  cases l.interval with
  | some ms => rfl
  | none =>
    cases htext : (l.environment "BOTDECK_POLL_INTERVAL_MS").bind fun text =>
        Text.unsigned64? text.toList with
    | some n =>
      obtain ⟨text, -, hn⟩ := Option.bind_eq_some_iff.mp htext
      have hrange : n < 2 ^ 64 := Nat.lt_succ_of_le (Text.unsigned64?_le hn)
      exact UInt64.toNat_ofNat_of_lt hrange
    | none =>
      rw [hfile]
      cases file? <;> rfl

theorem decides_baseUrl {file? : Option String}
    (hfile : l.file.backend.baseUrl = file?.getD "http://127.0.0.1:5300") : ∃ url n,
      Decides "http://127.0.0.1:5300" [l.baseUrl, l.environment "BOTDECK_BASE_URL", file?] url ∧
      url.toList = l.effectiveBaseUrl.toList ++ List.replicate n '/' ∧
      l.effectiveBaseUrl.toList.getLast? ≠ some '/' := by
  let url := l.baseUrl.getD ((l.environment "BOTDECK_BASE_URL").getD l.file.backend.baseUrl)
  have hurl : l.effectiveBaseUrl.toList = Task.Client.trimSlashes url.toList := by
    rw [effectiveBaseUrl, String.toList_ofList, Option.getD_or]
  obtain ⟨n, hn⟩ := Task.Client.exists_eq_trimSlashes_append url.toList
  have hdecides : Decides "http://127.0.0.1:5300"
      [l.baseUrl, l.environment "BOTDECK_BASE_URL", file?] url := by
    simp only [url, hfile]
    exact ((Decides.bottom.getD _).getD _).getD _
  refine ⟨url, n, hdecides, by rw [hurl, ← hn], ?_⟩
  rw [hurl]
  exact Task.Client.getLast?_trimSlashes _

theorem decides_token (l : Layers) :
    Decides none [((l.environment "BOTDECK_TOKEN").filter (!·.isEmpty)).map some,
      l.file.backend.token.map some] l.effectiveToken := by
  have hresult : l.effectiveToken =
      (((l.environment "BOTDECK_TOKEN").filter (!·.isEmpty)).map some).getD
        ((l.file.backend.token.map some).getD none) := by
    rw [effectiveToken]
    cases (l.environment "BOTDECK_TOKEN").filter (!·.isEmpty) with
    | some token => rfl
    | none => cases l.file.backend.token <;> rfl
  rw [hresult]
  exact (Decides.bottom.getD _).getD _

theorem decides_locale {file? : Option String}
    (hfile : l.file.display.locale = file?.getD "en_US") :
    Decides .english [(l.environment "BOTDECK_LOCALE").bind Locale.ofCode?,
      file?.bind Locale.ofCode?] l.effectiveLocale := by
  have hbottom : (Locale.ofCode? l.file.display.locale).getD .english =
      (file?.bind Locale.ofCode?).getD .english := by
    rw [hfile]
    cases file? with
    | some code => rw [Option.getD_some, Option.bind_some]
    | none => exact congrArg (Option.getD · .english) (Locale.ofCode?_code .english)
  rw [effectiveLocale, Option.getD_or, hbottom]
  exact (Decides.bottom.getD _).getD _

end Layers

open Layers (Setting Change SameResult)

-- Each setting is decided by the first layer that says something usable of it: the command line,
-- the variable, the file, the default. The other settings do not matter.
theorem settings_resolve_to_first_usable_layer {disk : Disk} {folder : Place} {l : Layers}
    (h : Project.loadSettings disk folder = .ok l.file) : ∃ entries,
      (match disk.find? (Project.settingsFileOf folder) with
        | none => entries = []
        | some .folder => False
        | some (.file text) => Toml.read? text = some entries) ∧
      (∃ ms, Decides 1000 [l.interval.map UInt64.toNat,
          (l.environment "BOTDECK_POLL_INTERVAL_MS").bind fun text => Text.unsigned64? text.toList,
          ((said? entries "poller" Polling.fields "interval_ms").bind unsigned64?).map
            UInt64.toNat] ms ∧
        l.effectiveInterval = max 1 ms ∧ 1 ≤ l.effectiveInterval ∧
        (Poll.Poller.new l.effectiveInterval).interval = l.effectiveInterval) ∧
      (∃ url n, Decides "http://127.0.0.1:5300" [l.baseUrl, l.environment "BOTDECK_BASE_URL",
          (said? entries "backend" Backend.fields "base_url").bind text?] url ∧
        url.toList = l.effectiveBaseUrl.toList ++ List.replicate n '/' ∧
        l.effectiveBaseUrl.toList.getLast? ≠ some '/') ∧
      Decides none [((l.environment "BOTDECK_TOKEN").filter (!·.isEmpty)).map some,
        ((said? entries "backend" Backend.fields "token").bind text?).map some] l.effectiveToken ∧
      Decides .english [(l.environment "BOTDECK_LOCALE").bind Locale.ofCode?,
        ((said? entries "ui" Display.fields "locale").bind text?).bind Locale.ofCode?]
          l.effectiveLocale ∧
      (∀ text, l.environment "BOTDECK_POLL_INTERVAL_MS" = some text →
        Text.unsigned64? text.toList = none →
        l.effectiveInterval = (l.change (.environment .interval none)).effectiveInterval) ∧
      (∀ code, l.environment "BOTDECK_LOCALE" = some code → Locale.ofCode? code = none →
        l.effectiveLocale = (l.change (.environment .locale none)).effectiveLocale) ∧
      (l.environment "BOTDECK_TOKEN" = some "" →
        l.effectiveToken = (l.change (.environment .token none)).effectiveToken) ∧
      ∀ (changes : List Change) (s : Setting), (∀ c ∈ changes, c.setting ≠ s) →
        SameResult (changes.foldl Layers.change l) l s := by
  obtain ⟨entries, hentries, hread⟩ := exists_of_loadSettings h
  obtain ⟨hurl, htoken, hinterval, hlocale⟩ := of_ofEntries? hread
  obtain ⟨ms, hms, heffective⟩ := Layers.decides_interval hinterval
  have hpoller : (Poll.Poller.new l.effectiveInterval).interval = l.effectiveInterval := by
    have hpositive := l.one_le_effectiveInterval
    show max l.effectiveInterval 1 = _
    omega
  have htokens := l.decides_token
  rw [htoken] at htokens
  refine ⟨entries, hentries, ⟨ms, hms, heffective, l.one_le_effectiveInterval, hpoller⟩,
    Layers.decides_baseUrl hurl, htokens, Layers.decides_locale hlocale,
    fun text htext hnone => Layers.effectiveInterval_of_unusable htext hnone,
    fun code hcode hnone => Layers.effectiveLocale_of_unusable hcode hnone,
    Layers.effectiveToken_of_empty,
    fun changes s hchanges => Layers.sameResult_foldl_change l hchanges⟩

-- A file that leaves out most settings, below variables that are of no use.
def sparseText : String :=
  "[backend]\ntoken = \"s3cret\"\n[poller]\ninterval_ms = 0\n[ui]\nlocale = \"zh-CN\"\n"

def sparseEntries : List (String × Value) :=
  [("backend", .table [("token", .scalar (.text "s3cret"))]),
    ("poller", .table [("interval_ms", .scalar (.integer 0))]),
    ("ui", .table [("locale", .scalar (.text "zh-CN"))])]

def misled : Layers where
  file := {
    backend := { token := some "s3cret" }
    polling := { intervalMs := 0 }
    display := { locale := "zh-CN" } }
  environment name :=
    if name = "BOTDECK_TOKEN" then some ""
    else if name = "BOTDECK_POLL_INTERVAL_MS" then some "18446744073709551616"
    else if name = "BOTDECK_LOCALE" then some "tlh" else none
  baseUrl := some "http://localhost//"

theorem settings_resolve_to_first_usable_layer_misled :
    let disk : Disk := [([".botdeck", "botdeck.toml"], .file sparseText)]
    Project.loadSettings disk [] = .ok misled.file ∧
      misled.effectiveInterval = 1 ∧ misled.effectiveToken = some "s3cret" ∧
      misled.effectiveLocale = .simplifiedChinese ∧
      (∃ n, "http://localhost//".toList =
        misled.effectiveBaseUrl.toList ++ List.replicate n '/') ∧
      SameResult (misled.change (.fileUrl "")) misled .token := by
  intro disk
  have hsparse : Toml.read? sparseText = some sparseEntries := by decide +kernel
  have hload : Project.loadSettings disk [] = .ok misled.file := by decide +kernel
  obtain ⟨entries, hentries, ⟨ms, hms, hinterval, -⟩, ⟨url, n, hurl, htrimmed, -⟩, htoken, hlocale,
    -, -, -, hsame⟩ := settings_resolve_to_first_usable_layer hload
  obtain rfl : sparseEntries = entries := Option.some.inj (hsparse.symm.trans hentries)
  have hsaid :
      ((said? sparseEntries "poller" Polling.fields "interval_ms").bind unsigned64?).map
        UInt64.toNat = some 0 ∧
      (said? sparseEntries "backend" Backend.fields "token").bind text? = some "s3cret" ∧
      ((said? sparseEntries "ui" Display.fields "locale").bind text?).bind Locale.ofCode? =
        some .simplifiedChinese := by
    refine ⟨?_, ?_, ?_⟩ <;> decide
  have hvariables :
      ((misled.environment "BOTDECK_POLL_INTERVAL_MS").bind fun text =>
        Text.unsigned64? text.toList) = none ∧
      (misled.environment "BOTDECK_TOKEN").filter (!·.isEmpty) = none ∧
      (misled.environment "BOTDECK_LOCALE").bind Locale.ofCode? = none := by
    refine ⟨?_, ?_, ?_⟩ <;> decide
  rw [hvariables.1, hsaid.1] at hms
  rw [hvariables.2.1, hsaid.2.1] at htoken
  rw [hvariables.2.2, hsaid.2.2] at hlocale
  obtain rfl : ms = 0 := hms.eq (.lower (.lower (.here 0 [])))
  obtain rfl : url = "http://localhost//" := hurl.eq (.here _ _)
  exact ⟨hload, hinterval, htoken.eq (.lower (.here _ _)), hlocale.eq (.lower (.here _ _)),
    ⟨n, htrimmed⟩, hsame [.fileUrl ""] .token (by simp [Change.setting])⟩

end Settings

end BotConsole
