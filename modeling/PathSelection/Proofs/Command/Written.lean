import PathSelection.Proofs.Command.Logs
import PathSelection.Proofs.Files

namespace PathSelection

namespace Command

section Reads

variable {β γ : Type}

/-- A computation that leaves the directory as it is. -/
def Reads (x : StateM Directory β) : Prop := ∀ d, (x d).2 = d

theorem Reads.pure (value : β) : Reads (pure value : StateM Directory β) := fun _ => rfl

theorem Reads.bind {x : StateM Directory β} {next : β → StateM Directory γ} (h : Reads x)
    (hnext : ∀ value, Reads (next value)) : Reads (x >>= next) :=
  fun d => (hnext _ _).trans (h d)

theorem Reads.readText (path : String) :
    Reads (FileStore.readText path : StateM Directory (Except FileFault String)) := fun _ => rfl

variable {ρ α : Type} [Scalar α] [NumberText α]

end Reads

section Run

variable {ρ α : Type} [Scalar α] [NumberText α] [RandomSource ρ α]

/-- What the writing of two texts answers, and what it makes of a directory. -/
inductive Written (c : Config α) (rounds rewards : String) (d : Directory) :
    Except (Error α) Unit → Directory → Prop
  /-- The first text could not be written, and the second one was not tried. -/
  | refused {fault : FileFault} (hrounds : d.writeText c.output rounds = (.error fault, d)) :
      Written c rounds rewards d (.error (.unwritableLog c.output fault)) d
  | rounds {d₁ : Directory} (hrounds : d.Stored c.output rounds d₁)
      (hnone : c.rewardOutput = none) : Written c rounds rewards d (.ok ()) d₁
  | refusedRewards {d₁ : Directory} {path : String} {fault : FileFault}
      (hrounds : d.Stored c.output rounds d₁) (hsome : c.rewardOutput = some path)
      (hrewards : d₁.writeText path rewards = (.error fault, d₁)) :
      Written c rounds rewards d (.error (.unwritableLog path fault)) d₁
  | both {d₁ d₂ : Directory} {path : String} (hrounds : d.Stored c.output rounds d₁)
      (hsome : c.rewardOutput = some path) (hrewards : d₁.Stored path rewards d₂) :
      Written c rounds rewards d (.ok ()) d₂

end Run

section Ending

variable {ρ : Type} [RandomSource ρ Float]

end Ending

end Command

end PathSelection
