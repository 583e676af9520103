import BotConsole.Binary64
import BotConsole.Binary64.Numeral
import BotConsole.Binary64.Shortest
import BotConsole.Catalog
import BotConsole.Console.FormReport
import BotConsole.Console.Invocation
import BotConsole.Console.LanguageReport
import BotConsole.Console.Report
import BotConsole.Console.Run
import BotConsole.Console.SettingsReport
import BotConsole.Console.Switch
import BotConsole.Console.Watch
import BotConsole.Dict
import BotConsole.Disk
import BotConsole.Event.Bus
import BotConsole.Event.Registry
import BotConsole.Form.Control
import BotConsole.Form.Format
import BotConsole.Form.Item
import BotConsole.Form.Kind
import BotConsole.Form.Rule
import BotConsole.Form.Session
import BotConsole.Form.Visibility
import BotConsole.Form.Yaml
import BotConsole.Http.Host
import BotConsole.Http.Percent
import BotConsole.Http.Reason
import BotConsole.Http.Url
import BotConsole.Json.Inspect
import BotConsole.Json.Number
import BotConsole.Json.Reader
import BotConsole.Json.Record
import BotConsole.Json.Value
import BotConsole.Json.Writer
import BotConsole.Language
import BotConsole.Locale
import BotConsole.LocalizedText
import BotConsole.Log.Filter
import BotConsole.Log.Level
import BotConsole.Log.Line
import BotConsole.Main
import BotConsole.Poll.Clock
import BotConsole.Poll.Poller
import BotConsole.Poll.Session
import BotConsole.Preference.Slot
import BotConsole.Preference.Store
import BotConsole.Project
import BotConsole.Proofs.Console.Effective
import BotConsole.Proofs.Console.FormReport
import BotConsole.Proofs.Console.Invocation
import BotConsole.Proofs.Console.Run
import BotConsole.Proofs.Console.Secrecy
import BotConsole.Proofs.Console.Watch
import BotConsole.Proofs.Dict
import BotConsole.Proofs.Disk
import BotConsole.Proofs.Event.Delivery
import BotConsole.Proofs.Event.Emission
import BotConsole.Proofs.Event.Ledger
import BotConsole.Proofs.Event.Registry
import BotConsole.Proofs.Form.Batch
import BotConsole.Proofs.Form.Decoding
import BotConsole.Proofs.Form.Edits
import BotConsole.Proofs.Form.Errors
import BotConsole.Proofs.Form.Flaws
import BotConsole.Proofs.Form.Groups
import BotConsole.Proofs.Form.Interference
import BotConsole.Proofs.Form.Leniency
import BotConsole.Proofs.Form.Live
import BotConsole.Proofs.Form.Required
import BotConsole.Proofs.Form.Roundtrip
import BotConsole.Proofs.Form.Validation
import BotConsole.Proofs.Json.Compact
import BotConsole.Proofs.Json.Depth
import BotConsole.Proofs.Json.Number
import BotConsole.Proofs.Json.Ordered
import BotConsole.Proofs.Json.Record
import BotConsole.Proofs.Language.Choice
import BotConsole.Proofs.Lookup
import BotConsole.Proofs.Poll.Await
import BotConsole.Proofs.Poll.Clock
import BotConsole.Proofs.Poll.Coherent
import BotConsole.Proofs.Poll.Consistent
import BotConsole.Proofs.Poll.Emission
import BotConsole.Proofs.Poll.FirstVerdict
import BotConsole.Proofs.Poll.Frame
import BotConsole.Proofs.Poll.History
import BotConsole.Proofs.Poll.Lawful
import BotConsole.Proofs.Poll.Logged
import BotConsole.Proofs.Poll.Moment
import BotConsole.Proofs.Poll.Onlooker
import BotConsole.Proofs.Poll.Onward
import BotConsole.Proofs.Poll.Outcomes
import BotConsole.Proofs.Poll.Published
import BotConsole.Proofs.Poll.Reachable
import BotConsole.Proofs.Poll.Reason
import BotConsole.Proofs.Poll.Sound
import BotConsole.Proofs.Poll.Timed
import BotConsole.Proofs.Poll.Timeline
import BotConsole.Proofs.Preference.Store
import BotConsole.Proofs.Settings.Layers
import BotConsole.Proofs.Settings.Reading
import BotConsole.Proofs.Settings.Saved
import BotConsole.Proofs.Settings.Text
import BotConsole.Proofs.Settings.Token
import BotConsole.Proofs.Task.Address
import BotConsole.Proofs.Task.Envelope
import BotConsole.Proofs.Task.Reply
import BotConsole.Proofs.Task.Status
import BotConsole.Proofs.Text.Bytes
import BotConsole.Proofs.Text.Digits
import BotConsole.Proofs.Text.Replace
import BotConsole.Proofs.Text.Split
import BotConsole.Proofs.Toml.Document
import BotConsole.Proofs.Toml.Quoted
import BotConsole.Proofs.Toml.Scalar
import BotConsole.Proofs.Toml.Sections
import BotConsole.Proofs.Version.Canonical
import BotConsole.Proofs.Version.Display
import BotConsole.Proofs.Version.Order
import BotConsole.Proofs.Version.Parts
import BotConsole.Proofs.Version.Segment
import BotConsole.Settings.Basic
import BotConsole.Settings.Effective
import BotConsole.Settings.Text
import BotConsole.Settings.Warning
import BotConsole.Task.Client
import BotConsole.Task.Failure
import BotConsole.Task.Status
import BotConsole.Text.Base64
import BotConsole.Text.Blank
import BotConsole.Text.Hex
import BotConsole.Text.Integer
import BotConsole.Text.Letter
import BotConsole.Text.Quoted
import BotConsole.Text.Split
import BotConsole.Toml.Document
import BotConsole.Toml.Key
import BotConsole.Toml.Moment
import BotConsole.Toml.Numeral
import BotConsole.Toml.Quoted
import BotConsole.Toml.Reader
import BotConsole.Toml.Record
import BotConsole.Toml.Statement
import BotConsole.Toml.Table
import BotConsole.Toml.Value
import BotConsole.Version
import BotConsole.Yaml.Block
import BotConsole.Yaml.Cursor
import BotConsole.Yaml.Document
import BotConsole.Yaml.Folding
import BotConsole.Yaml.Layout
import BotConsole.Yaml.Node
import BotConsole.Yaml.Plain
import BotConsole.Yaml.Property
import BotConsole.Yaml.Quoted
import BotConsole.Yaml.Scalar
import BotConsole.Yaml.Token
