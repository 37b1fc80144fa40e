import HassOS.Framework.Run
import HassOS.Framework.Script
import HassOS.Framework.Text

/-!
# The start script of the Supervisor (`hassos-supervisor`)

One run of the script over the local images, the one container, the version
file and the startup marker (`hassosSupervisor`), down to `docker container
start`. Which command fails is given from outside (`Outcomes`); a command that
fails under `set -e` ends the run, and a run may be killed after any number of
its commands. The run keeps a list of the commands that it has carried out.

The identifier file of the container is left out: the script removes it before
it creates a container.
-/

namespace HassOS.Supervisor

open Framework

/-- A container `hassio_supervisor`. -/
structure Container where
  /-- The image that it was created from. -/
  image : Nat
  /-- The version of the script that created it. -/
  script : Nat
  deriving DecidableEq

/-- What the runs of the script leave for the next one. A version of the
script is told by its timestamp. -/
structure Host where
  /-- The local images of the Supervisor, by tag. -/
  tagged : Line → Option Nat
  container : Option Container
  /-- The timestamp of `.hassos-supervisor-version`. -/
  versionFile : Option Nat
  /-- `/run/supervisor/startup-marker` -/
  marker : Bool
  /-- `.supervisor` in `updater.json`. -/
  updater : Option Line

def latest : Line := "latest".toList
def stable : Line := "stable".toList

/-- The commands that change something, as they turn out. -/
inductive Command where
  /-- `docker container rm --force hassio_supervisor || true` -/
  | rmContainer (ok : Bool)
  /-- `docker image rm --force … || true`, and which tags it leaves. -/
  | rmImages (keeps : Line → Bool)
  /-- `touch` of the startup marker. -/
  | touchMarker
  /-- `docker pull` of a version, to the image `id`. -/
  | pull (version : Line) (id : Nat)
  /-- `docker tag … :latest` -/
  | tag (version : Line)
  /-- `rm -f updater.json` -/
  | rmUpdater
  /-- `docker container create` -/
  | create (image script : Nat)
  /-- `touch --reference="$0"` of the version file. -/
  | touchVersion (script : Nat)
  /-- `docker container start` -/
  | start

def Host.exec (h : Host) : Command → Host
  | .rmContainer ok => if ok then { h with container := none } else h
  | .rmImages keeps => { h with tagged := fun t => if keeps t then h.tagged t else none }
  | .touchMarker => { h with marker := true }
  | .pull version id => { h with tagged := Function.update h.tagged version (some id) }
  | .tag version => { h with tagged := Function.update h.tagged latest (h.tagged version) }
  | .rmUpdater => { h with updater := none }
  | .create image script => { h with container := some ⟨image, script⟩ }
  | .touchVersion script => { h with versionFile := some script }
  | .start => h

/-- How the commands of a run end. -/
structure Outcomes where
  /-- `docker images` of the latest image. -/
  images : Bool
  /-- `docker inspect` of the container. -/
  inspect : Bool
  /-- `docker container rm`, where the marker is found. -/
  rmMarked : Bool
  /-- The tags that `docker image rm` leaves. -/
  keeps : Line → Bool
  /-- `jq` of `updater.json`. -/
  jq : Bool
  /-- What the stable channel tells, if it can be reached. -/
  stableVersion : Option Line
  /-- The image that `docker pull` brings. -/
  pull : Option Nat
  tag : Bool
  /-- `docker inspect` of the image. -/
  inspectImage : Bool
  /-- `docker container rm`, where the image has changed. -/
  rmUpdated : Bool
  /-- `docker container rm`, where the script has changed. -/
  rmChanged : Bool
  create : Bool
  touchVersion : Bool

/-- A run under way. -/
structure Run where
  host : Host
  /-- The commands carried out, first to last. -/
  done : List Command

/-- One more command. -/
def Run.carryOut (c : Command) (r : Run) : Run := ⟨r.host.exec c, r.done ++ [c]⟩

inductive Exit where
  | started
  | failed
  deriving DecidableEq

/-- Run supervisor -/
def startContainer : Script Run Exit := .act (Run.carryOut .start) <| .ret .started

/-- If Supervisor container is missing, create it. Docker creates no second
container of the same name. -/
def createContainer (version : Nat) (o : Outcomes) (containerId : Option Nat) : Script Run Exit :=
  if containerId.isSome then startContainer
  else .look fun r =>
    match r.host.container, r.host.tagged latest with
    | none, some image =>
      if o.create then
        .act (Run.carryOut (.create image version)) <|
        if o.touchVersion then
          .act (Run.carryOut (.touchVersion version)) startContainer
        else .ret .failed
      else .ret .failed
    | _, _ => .ret .failed

/-- Start script changed, remove previous container -/
def checkVersion (version : Nat) (o : Outcomes) (containerId : Option Nat) : Script Run Exit :=
  .look fun r =>
    if r.host.versionFile ≠ some version then
      .act (Run.carryOut (.rmContainer o.rmChanged)) <| createContainer version o none
    else createContainer version o containerId

/-- Image changed, remove previous container -/
def checkImage (version : Nat) (o : Outcomes) (imageId containerId : Option Nat) : Script Run Exit :=
  if containerId.isSome then
    if imageId ≠ containerId then
      .act (Run.carryOut (.rmContainer o.rmUpdated)) <| checkVersion version o none
    else checkVersion version o containerId
  else createContainer version o containerId

/-- Pull in the Supervisor, and tag as latest -/
def pullImage (version : Nat) (o : Outcomes) (containerId : Option Nat) (supervisorVersion : Line) :
    Script Run Exit :=
  match o.pull with
  | some id =>
    .act (Run.carryOut (.pull supervisorVersion id)) <|
    if o.tag then
      .act (Run.carryOut (.tag supervisorVersion)) <| .look fun r =>
      checkImage version o (if o.inspectImage then r.host.tagged latest else none) containerId
    else .ret .failed
  | none => .act (Run.carryOut .rmUpdater) <| .ret .failed

/-- The version from the update information. -/
def localVersion (o : Outcomes) (h : Host) : Line := if o.jq then h.updater.getD stable else stable

/-- If Supervisor image is missing, pull it -/
def checkMissing (version : Nat) (o : Outcomes) (imageId containerId : Option Nat) :
    Script Run Exit :=
  .act (Run.carryOut .touchMarker) <|
  if imageId.isSome then checkImage version o imageId containerId
  else .look fun r =>
    -- Get version from stable channel in case we have no local version
    if localVersion o r.host = stable then
      match o.stableVersion with
      | some v => pullImage version o containerId v
      | none => .ret .failed
    else pullImage version o containerId (localVersion o r.host)

/-- The script of this version. -/
def hassosSupervisor (version : Nat) (o : Outcomes) : Script Run Exit :=
  .look fun r =>
    let imageId := if o.images then r.host.tagged latest else none
    let containerId := if o.inspect then r.host.container.map Container.image else none
    -- Check if previous run left the startup-marker in place
    if r.host.marker then
      .act (Run.carryOut (.rmContainer o.rmMarked)) <|
      .act (Run.carryOut (.rmImages o.keeps)) <|
      checkMissing version o none none
    else checkMissing version o imageId containerId

/-! ## Runs in a row -/

inductive Event where
  /-- A run of the script, over once `n` of its commands are carried out. -/
  | run (version : Nat) (o : Outcomes) (n : Nat)
  /-- The Supervisor replaces images or `updater.json`. -/
  | update (tagged : Line → Option Nat) (updater : Option Line)
  /-- The Supervisor removes the startup marker. -/
  | rmMarker
  | reboot

/-- Where a run is over. -/
def ended (version : Nat) (o : Outcomes) (n : Nat) (h : Host) : Run :=
  (hassosSupervisor version o).cut n ⟨h, []⟩

def step (h : Host) : Event → Host
  | .run version o n => (ended version o n h).host
  | .update tagged updater => { h with tagged := tagged, updater := updater }
  | .rmMarker | .reboot => { h with marker := false }

/-- Every command succeeds. -/
def allOk : Outcomes where
  images := true
  inspect := true
  rmMarked := true
  keeps _ := false
  jq := true
  stableVersion := some "2024.01".toList
  pull := some 7
  tag := true
  inspectImage := true
  rmUpdated := true
  rmChanged := true
  create := true
  touchVersion := true

/-- A host without images and containers. -/
def freshHost : Host := ⟨fun _ => none, none, none, false, none⟩

end HassOS.Supervisor
