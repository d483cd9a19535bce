import Lightboard.Proofs.Light.Roster
import Lightboard.Proofs.Machine.Conduct

/-!
# What a run leaves of the lights

Commands change colors and power levels. They neither add nor rename a light, move it to another group
or location, or change the number of its zones: `step_keeps` shows that every step leaves the stage with
a set of lights of the same build, and `afterSteps_keeps` that a whole run does.
-/

namespace Lightboard

namespace Stage

variable {s s' s'' : Stage} {l : Light}

/-- The second stage has the lights of the first, up to what commands change. -/
structure Keeps (s s' : Stage) : Prop where
  lights : s.lights.SameBuild s'.lights
  ghosts : s'.ghosts = s.ghosts

/-- A stage with the very same lights. -/
theorem Keeps.of_eq (lights : s'.lights = s.lights) (ghosts : s'.ghosts = s.ghosts) : s.Keeps s' :=
  ⟨lights ▸ .refl _, ghosts⟩

theorem Keeps.refl (s : Stage) : s.Keeps s := ⟨.refl _, rfl⟩

theorem Keeps.trans (h : s.Keeps s') (h' : s'.Keeps s'') : s.Keeps s'' :=
  ⟨h.lights.trans h'.lights, h'.ghosts.trans h.ghosts⟩

theorem keeps_poll (s : Stage) : s.Keeps s.poll.1 := by
  rw [poll_eq]
  exact .of_eq rfl rfl

/-- The stage has a light of this build under its name. -/
def Knows (s : Stage) (l : Light) : Prop := (s.light? l.name).map Light.build = some l.build

theorem Knows.keeps (known : s.Knows l) (h : s.Keeps s') : s'.Knows l :=
  (h.lights.builds l.name).trans known

/-- A light that was found under a name is known under its own. -/
theorem knows_of_light? (filed : s.lights.IsFiled) {n : Text} (found : s.light? n = some l) :
    s.Knows l := by
  obtain rfl := filed n l found
  rw [Knows, found, Option.map_some]

/-- Colored zones are put back with the whole light, which has as many zones as before. -/
theorem keeps_zonesColored (known : s.Knows l) {l' : Light} {first last : Int} {c : Color}
    (colored : l.setZones first last c = .ok l') :
    s.Keeps { s with lights := s.lights.modify l.name fun _ => l' } := by
  refine ⟨LightSet.sameBuild_modify fun m held => ?_, rfl⟩
  have same : some m.build = some l.build := by
    rw [← known, light?, ← Option.map_some]
    exact congrArg _ held.symm
  exact (Light.build_setZones colored).trans (Option.some.inj same).symm

/-- No instruction changes more of the lights than a command may. -/
theorem Conduct.keeps {op : OpCode} (h : s.Conduct op s') (filed : s.lights.IsFiled) :
    s.Keeps s' := by
  induction h with
  | start => exact .refl s
  | aside _ lights ghosts _ ih => exact ih.trans (.of_eq lights ghosts)
  | colored _ _ name c ih =>
      exact ih.trans ⟨LightSet.sameBuild_modify fun l _ => l.build_setColor c, rfl⟩
  | zonesColored _ _ found colored ih =>
      exact ih.trans (keeps_zonesColored ((knows_of_light? filed found).keeps ih) colored)
  | switched _ _ name level ih => exact ih.trans ⟨LightSet.sameBuild_modify fun l _ => rfl, rfl⟩
  | keyed _ _ k ih => exact ih.trans (.of_eq rfl rfl)

theorem lightNames_eq (ghosts : s.ghosts = []) : s.lightNames = s.lights.names := by
  rw [lightNames, ghosts, List.append_nil, LightSet.names]

end Stage

namespace Rig

variable {r : Rig}

theorem color_keeps (filed : r.stage.lights.IsFiled) : r.stage.Keeps r.color.1.stage :=
  r.color_conduct.keeps filed

theorem stepAt_keeps (filed : r.stage.lights.IsFiled) (p : Program) (pc : Int) (i : Instruction) :
    r.stage.Keeps (r.stepAt p pc i).1.stage := by
  rw [stepAt_stage]
  exact (r.execute_conduct p i).keeps filed

theorem step_keeps (filed : r.stage.lights.IsFiled) : r.stage.Keeps r.step.1.stage := by
  have polled := r.stage.keeps_poll
  simp only [step]
  split
  · exact .refl _
  · split
    · exact .refl _
    · split
      · next asked =>
        rw [asked] at polled
        exact polled
      · next stage asked =>
        rw [asked] at polled
        split
        · exact polled
        · split
          · exact polled
          · have filed' := polled.lights.isFiled filed
            exact polled.trans (stepAt_keeps (r := { r with stage := stage }) filed' _ _ _)

theorem afterSteps_keeps (filed : r.stage.lights.IsFiled) (k : Nat) :
    r.stage.Keeps (r.afterSteps k).stage := by
  induction k with
  | zero => exact .refl _
  | succ k ih => exact ih.trans (step_keeps (ih.lights.isFiled filed))

end Rig

end Lightboard
