import BotConsole.Catalog
import BotConsole.Preference.Store

namespace BotConsole

structure Language where
  locale : Locale
  store : Preference.Store

namespace Language

def preference : String := "language"

-- The locale that a store holds; the fallback where it cannot be read or means no locale.
def stored (store : Preference.Store) (fallback : Locale) : Locale :=
  match store.get preference with
  | .ok (some code) => (Locale.ofCode? code).getD fallback
  | .ok none => fallback
  | .error _ => fallback

def load (store : Preference.Store) (fallback : Locale) : Language :=
  ⟨stored store fallback, store⟩

def setLocale (l : Language) (locale : Locale) : Except Preference.Failure Language := do
  let store ← l.store.set preference locale.code
  .ok ⟨locale, store⟩

def text (l : Language) (message : Message) : String :=
  message.text l.locale

def inspect (l : Language) : String :=
  "I18n \x7b locale: " ++ l.locale.tag ++ " \x7d"

end Language

end BotConsole
