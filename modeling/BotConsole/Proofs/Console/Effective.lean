import BotConsole.Proofs.Console.FormReport
import BotConsole.Proofs.Console.Watch
import BotConsole.Proofs.Settings.Layers

namespace BotConsole

namespace Console

end Console

end BotConsole
