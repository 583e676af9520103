import BotConsole.Locale

namespace BotConsole

inductive Message where
  | fieldRequired
  | expectedNumber
  | expectedInteger
  | expectedBoolean
  | expectedText
  | expectedTextList
  | expectedPromptMessages
  | taskSucceeded
  | taskFailed
  deriving DecidableEq, Inhabited, Repr

namespace Message

def all : List Message :=
  [.fieldRequired, .expectedNumber, .expectedInteger, .expectedBoolean, .expectedText,
    .expectedTextList, .expectedPromptMessages, .taskSucceeded, .taskFailed]

def key : Message → String
  | .fieldRequired => "FieldRequired"
  | .expectedNumber => "ExpectedNumber"
  | .expectedInteger => "ExpectedInteger"
  | .expectedBoolean => "ExpectedBoolean"
  | .expectedText => "ExpectedString"
  | .expectedTextList => "ExpectedStringArray"
  | .expectedPromptMessages => "ExpectedPromptMessages"
  | .taskSucceeded => "TaskSucceeded"
  | .taskFailed => "TaskFailed"

def english : Message → String
  | .fieldRequired => "This field is required"
  | .expectedNumber => "Expected a number"
  | .expectedInteger => "Expected an integer"
  | .expectedBoolean => "Expected true or false"
  | .expectedText => "Expected text"
  | .expectedTextList => "Expected a list of text values"
  | .expectedPromptMessages => "Expected a list of \x7brole, content\x7d messages"
  | .taskSucceeded => "Task completed"
  | .taskFailed => "Task failed"

def simplifiedChinese : Message → String
  | .fieldRequired => "此字段为必填项"
  | .expectedNumber => "应为数字"
  | .expectedInteger => "应为整数"
  | .expectedBoolean => "应为布尔值"
  | .expectedText => "应为文本"
  | .expectedTextList => "应为文本列表"
  | .expectedPromptMessages => "应为 \x7brole, content\x7d 消息列表"
  | .taskSucceeded => "任务已完成"
  | .taskFailed => "任务失败"

def traditionalChinese : Message → String
  | .fieldRequired => "此欄位為必填"
  | .expectedNumber => "應為數字"
  | .expectedInteger => "應為整數"
  | .expectedBoolean => "應為布林值"
  | .expectedText => "應為文字"
  | .expectedTextList => "應為文字列表"
  | .expectedPromptMessages => "應為 \x7brole, content\x7d 訊息列表"
  | .taskSucceeded => "任務已完成"
  | .taskFailed => "任務失敗"

def japanese : Message → String
  | .fieldRequired => "この項目は必須です"
  | .expectedNumber => "数値を入力してください"
  | .expectedInteger => "整数を入力してください"
  | .expectedBoolean => "真偽値を指定してください"
  | .expectedText => "テキストを入力してください"
  | .expectedTextList => "テキストのリストを指定してください"
  | .expectedPromptMessages =>
    "\x7brole, content\x7d メッセージのリストを指定してください"
  | .taskSucceeded => "タスクが完了しました"
  | .taskFailed => "タスクが失敗しました"

def text (m : Message) : Locale → String
  | .english => m.english
  | .simplifiedChinese => m.simplifiedChinese
  | .traditionalChinese => m.traditionalChinese
  | .japanese => m.japanese

end Message

end BotConsole
