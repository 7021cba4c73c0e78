import LslScript.Text.Basic

/-!
# Events

The events a state can handle, with their names, in the order of the catalogue.
-/

namespace LslScript

inductive Event
  | attach | atRotTarget | atTarget | changed | collision | collisionEnd | collisionStart
  | control | dataserver | email | experiencePermissions | experiencePermissionsDenied
  | gameControl | httpRequest | httpResponse | landCollision | landCollisionEnd
  | landCollisionStart | linksetData | linkMessage | listen | money | movingEnd | movingStart
  | notAtRotTarget | notAtTarget | noSensor | objectRez | onRez | pathUpdate | runTimePermissions
  | sensor | stateEntry | stateExit | timer | transactionResult | touch | touchEnd | touchStart
deriving DecidableEq

namespace Event

def all : List Event :=
  [attach, atRotTarget, atTarget, changed, collision, collisionEnd, collisionStart, control,
    dataserver, email, experiencePermissions, experiencePermissionsDenied, gameControl,
    httpRequest, httpResponse, landCollision, landCollisionEnd, landCollisionStart, linksetData,
    linkMessage, listen, money, movingEnd, movingStart, notAtRotTarget, notAtTarget, noSensor,
    objectRez, onRez, pathUpdate, runTimePermissions, sensor, stateEntry, stateExit, timer,
    transactionResult, touch, touchEnd, touchStart]

def name : Event → Text
  | attach => "attach"
  | atRotTarget => "at_rot_target"
  | atTarget => "at_target"
  | changed => "changed"
  | collision => "collision"
  | collisionEnd => "collision_end"
  | collisionStart => "collision_start"
  | control => "control"
  | dataserver => "dataserver"
  | email => "email"
  | experiencePermissions => "experience_permissions"
  | experiencePermissionsDenied => "experience_permissions_denied"
  | gameControl => "game_control"
  | httpRequest => "http_request"
  | httpResponse => "http_response"
  | landCollision => "land_collision"
  | landCollisionEnd => "land_collision_end"
  | landCollisionStart => "land_collision_start"
  | linksetData => "linkset_data"
  | linkMessage => "link_message"
  | listen => "listen"
  | money => "money"
  | movingEnd => "moving_end"
  | movingStart => "moving_start"
  | notAtRotTarget => "not_at_rot_target"
  | notAtTarget => "not_at_target"
  | noSensor => "no_sensor"
  | objectRez => "object_rez"
  | onRez => "on_rez"
  | pathUpdate => "path_update"
  | runTimePermissions => "run_time_permissions"
  | sensor => "sensor"
  | stateEntry => "state_entry"
  | stateExit => "state_exit"
  | timer => "timer"
  | transactionResult => "transaction_result"
  | touch => "touch"
  | touchEnd => "touch_end"
  | touchStart => "touch_start"

def ofName? (n : Text) : Option Event := all.find? (·.name == n)

end Event

end LslScript
