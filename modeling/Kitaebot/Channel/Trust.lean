import Kitaebot.Core.Text

/-!
# Trust

The trust model of the GitHub channels.
-/

namespace Kitaebot.Channel

open Kitaebot.Text

/-- Who the channels act on: the owner, listed human users and listed bot
apps. -/
structure Trust where
  owner : String
  users : List String
  bots : List String

/-- Bot logins carry a suffix in the REST API that the list leaves out. -/
def Trust.allows (trust : Trust) (login : String) : Bool :=
  eqIgnoreAsciiCase login trust.owner ||
    trust.users.any (fun user => eqIgnoreAsciiCase user login) ||
      trust.bots.any fun bot =>
        eqIgnoreAsciiCase bot ((stripSuffix "[bot]" login).getD login)

end Kitaebot.Channel
