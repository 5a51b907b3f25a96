import Gameplay.World

/-!
# Actions

`World.perform` carries out one action. Most actions change the world at once; destroys, spawns,
room changes and custom events are only noted as pending. An action fails exactly on a dangling
reference, and then it changes nothing, except that a random number may have been drawn.
-/

namespace Gameplay

/-- How the items go on after an action. -/
inductive Flow (τ : Type)
  | next
  | suspend (duration : τ)
  | halt
  | fail (cause : Dangling)
deriving DecidableEq, Repr

namespace World

variable {τ : Type}

/-- Goes on with what was looked up. If the reference dangles, the action fails. -/
def given {α : Type} (w : World τ) (looked : Except Dangling α) (go : α → World τ × Flow τ) :
    World τ × Flow τ :=
  match looked with
  | .ok a => go a
  | .error cause => (w, .fail cause)

/-- Notes a change to a declared room. Of several, the first is kept. -/
def askForRoom (w : World τ) (room : String) (transition : TransitionKind) : World τ × Flow τ :=
  match w.project.room? room with
  | none => (w, .fail (.room room))
  | some _ =>
    ({ w with pending := (w.pending.claimRoom? ⟨room, transition⟩).getD w.pending }, .next)

variable [Scalar τ]

def perform (w : World τ) (v : Invocation) : Action → World τ × Flow τ
  | .move dx dy =>
    w.given (w.point v.actor dx dy) fun delta =>
      (w.modify v.actor fun i => { i with position := i.position + delta }, .next)
  | .setVelocity vx vy =>
    w.given (w.point v.actor vx vy) fun velocity =>
      (w.modify v.actor fun i => { i with velocity := velocity }, .next)
  | .rotate degrees =>
    w.given (w.number v.actor degrees) fun degrees =>
      (w.modify v.actor fun i => { i with rotation := turn i.rotation (narrow degrees) }, .next)
  | .moveToward x y speed =>
    w.given (w.point v.actor x y) fun target =>
      w.given (w.number v.actor speed) fun speed =>
        let reach := Scalar.greater (narrow speed) 0
        (w.modify v.actor fun i => { i with position := i.position.approach target reach }, .next)
  | .clampToRoom =>
    let size := (w.room.map (·.size)).getD .zero
    (w.modify v.actor fun i => { i with position := i.collider.confine i.position size }, .next)
  | .teleport x y =>
    w.given (w.point v.actor x y) fun target =>
      (w.modify v.actor fun i => { i with position := target }, .next)
  | .destroySelf => (w.destroy v.actor, .next)
  | .destroyOther =>
    match v.partner with
    | some other => (if (w.instance? other).isSome then w.destroy other else w, .next)
    | none => (w, .next)
  | .spawnObject objectId x y relative =>
    match w.program.objectIndex? objectId with
    | none => (w, .fail (.object objectId))
    | some object =>
      w.given (w.point v.actor x y) fun target =>
        let position :=
          match relative, w.instance? v.actor with
          | true, some i => target + i.position
          | _, _ => target
        ({ w with pending := w.pending.spawn ⟨object, position⟩ }, .next)
  | .changeScore delta =>
    w.given (w.number v.actor delta) fun delta => ({ w with score := w.score + delta }, .next)
  | .endGame message => ({ w with status := .finish message }, .halt)
  | .message text duration =>
    let shown := match duration with
      | some operand => w.number v.actor operand
      | none => .ok w.settings.toastMs
    w.given shown fun shown =>
      ({ w with toasts := w.toasts.enqueue text (Scalar.ofFloat shown) }, .next)
  | .playSound soundId => ({ w with sounds := soundId :: w.sounds }, .next)
  | .changeVariable target op value =>
    w.given (w.lookup v.actor target) fun current =>
      w.given (w.resolve v.actor value) fun operand =>
        w.given (w.assign v.actor target (current.value.change current.type op operand))
          (·, .next)
  | .randomizeVariable target min max integer =>
    w.given (w.number v.actor min) fun min =>
      w.given (w.number v.actor max) fun max =>
        let (drawn, random) := w.random.draw min max integer
        let w := { w with random := random }
        w.given (w.assign v.actor target (.number drawn)) (·, .next)
  | .copyVariable source target =>
    w.given (w.lookup v.actor source) fun binding =>
      w.given (w.assign v.actor target binding.value) (·, .next)
  | .goToRoom roomId transition => w.askForRoom roomId transition
  | .restartRoom transition =>
    match w.room with
    | none => (w, .next)
    | some room => w.askForRoom room.id transition
  | .wait duration =>
    w.given (w.number v.actor duration) fun duration =>
      (w, .suspend (Scalar.greater (Scalar.ofFloat duration) 0))
  | .emitCustomEvent name =>
    let source := ((w.program.object? v.object).map (·.id)).getD ""
    ({ w with pending := w.pending.emit ⟨name, source⟩ }, .next)

/-- Carries out an action and, unless it fails, enters it in the journal. -/
def act (w : World τ) (v : Invocation) (action : Action) : World τ × Flow τ :=
  match w.perform v action with
  | (w, .fail cause) => (w, .fail cause)
  | (w, flow) => (w.note (.performed v action), flow)

end World

end Gameplay
