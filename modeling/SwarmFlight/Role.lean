/-!
# Roles

A leader attracts followers and is moved by nobody; a follower is drawn to leaders and
pushed away by other followers.
-/

namespace SwarmFlight

/-- The part an agent plays in the swarm. -/
inductive Role where
  | follower
  | leader
  deriving DecidableEq, Repr, Inhabited

/-- Whether the role is that of a leader. -/
def Role.isLeader : Role → Bool
  | .leader => true
  | .follower => false

/-- The name of the role. -/
def Role.text : Role → String
  | .follower => "follower"
  | .leader => "leader"

end SwarmFlight
