import BotConsole.Text.Blank
import BotConsole.Text.Letter

namespace BotConsole

open Text

inductive Locale where
  | english
  | simplifiedChinese
  | traditionalChinese
  | japanese
  deriving DecidableEq, Inhabited, Repr

namespace Locale

def all : List Locale :=
  [.english, .simplifiedChinese, .traditionalChinese, .japanese]

def code : Locale → String
  | .english => "en_US"
  | .simplifiedChinese => "zh_Hans"
  | .traditionalChinese => "zh_Hant"
  | .japanese => "ja_JP"

def tag : Locale → String
  | .english => "EnUs"
  | .simplifiedChinese => "ZhHans"
  | .traditionalChinese => "ZhHant"
  | .japanese => "JaJp"

def normalized (code : String) : String :=
  String.ofList ((trim code.toList).map fun c => lowerLetter (if c = '-' then '_' else c))

-- The locale that a code means, in either spelling and any case, a language alone included.
def ofCode? (code : String) : Option Locale :=
  match normalized code with
  | "en_us" | "en" => some .english
  | "zh_hans" | "zh_cn" | "zh" => some .simplifiedChinese
  | "zh_hant" | "zh_tw" | "zh_hk" => some .traditionalChinese
  | "ja_jp" | "ja" => some .japanese
  | _ => none

def ofExactCode? (code : String) : Option Locale :=
  all.find? (·.code == code)

def invalidMessage (code : String) : String :=
  "Invalid locale '" ++ code ++ "'. Valid values: en_US, zh_Hans, zh_Hant, ja_JP"

theorem ofCode?_code (l : Locale) : ofCode? l.code = some l := by
  cases l <;> decide +kernel

end Locale

end BotConsole
