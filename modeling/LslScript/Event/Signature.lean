import LslScript.Event.Basic
import LslScript.ValueType

/-!
# Event signatures

The parameters of each event. Their types are fixed; their identifiers are those of the catalogue
unless the script names others.
-/

namespace LslScript.Event

/-- The type of each parameter and the identifier that the catalogue gives it. -/
def signature : Event → List (ValueType × Text)
  | attach => [(.key, "id")]
  | atRotTarget => [(.integer, "handle"), (.rotation, "targetrot"), (.rotation, "ourrot")]
  | atTarget => [(.integer, "tnum"), (.vector, "targetpos"), (.vector, "ourpos")]
  | changed => [(.integer, "change")]
  | collision => [(.integer, "num_detected")]
  | collisionEnd => [(.integer, "num_detected")]
  | collisionStart => [(.integer, "num_detected")]
  | control => [(.key, "id"), (.integer, "level"), (.integer, "edge")]
  | dataserver => [(.key, "queryid"), (.string, "data")]
  | email =>
    [(.string, "time"), (.string, "address"), (.string, "subject"), (.string, "message"),
      (.integer, "num_left")]
  | experiencePermissions => [(.key, "agent_id")]
  | experiencePermissionsDenied => [(.key, "agent_id"), (.integer, "reason")]
  | gameControl =>
    [(.key, "id"), (.integer, "button_levels"), (.integer, "button_edges"), (.list, "axes")]
  | httpRequest => [(.key, "request_id"), (.string, "method"), (.string, "body")]
  | httpResponse =>
    [(.key, "request_id"), (.integer, "status"), (.list, "metadata"), (.string, "body")]
  | landCollision => [(.vector, "pos")]
  | landCollisionEnd => [(.vector, "pos")]
  | landCollisionStart => [(.vector, "pos")]
  | linksetData => [(.integer, "action"), (.string, "name"), (.string, "value")]
  | linkMessage => [(.integer, "sender_num"), (.integer, "num"), (.string, "str"), (.key, "id")]
  | listen => [(.integer, "channel"), (.string, "name"), (.key, "id"), (.string, "message")]
  | money => [(.key, "id"), (.integer, "amount")]
  | objectRez => [(.key, "id")]
  | onRez => [(.integer, "start_param")]
  | pathUpdate => [(.integer, "type"), (.list, "reserved")]
  | runTimePermissions => [(.integer, "perm")]
  | sensor => [(.integer, "num_detected")]
  | transactionResult => [(.key, "id"), (.integer, "success"), (.string, "data")]
  | touch => [(.integer, "num_detected")]
  | touchEnd => [(.integer, "num_detected")]
  | touchStart => [(.integer, "num_detected")]
  | movingEnd | movingStart | notAtRotTarget | notAtTarget | noSensor
  | stateEntry | stateExit | timer => []

def types (e : Event) : List ValueType := e.signature.map (·.1)

def arity (e : Event) : Nat := e.signature.length

end LslScript.Event
