-- SUMMARY: What listening on a control channel gives, by what is at its path, and what it changes.
import BuildServer.Control.Channel
import BuildServer.Proofs.FileSystem.Canonical
import BuildServer.Proofs.FileSystem.Growth

/-!
# Listening

A channel can be listened on if a pipe is there or can be made. If it cannot,
nothing has changed. If it can, the path leads to a pipe that has a reader, and
every path to a directory leads where it led.
-/

namespace BuildServer

/-- A link that leads to nothing is at the path, or at the path without the slashes at its
    end. -/
def FileSystem.Dangling (fs : FileSystem) (path : String) : Prop :=
  fs.stat path = .error .notFound ∧ (fs.isLink path ∨ fs.isLink (withoutFinalSlashes path))

/-- A path at which nothing is leads to the same whether links at its end are followed. -/
theorem FileSystem.walk_of_not_dangling {fs : FileSystem} {path : String}
    (hdangling : ¬ fs.Dangling path) (hstat : fs.stat path = .error .notFound) :
    fs.walk false path = fs.walk true path :=
  (walk_follow (Bool.eq_false_iff.mpr fun hlink => hdangling ⟨hstat, .inl hlink⟩)).symm

namespace Control

open FileSystem (Extends retains_updatePipe)

/-- What listening on the channel at this path gives, and the file system after it. -/
inductive Listens (fs : FileSystem) (path : String) :
    Except ChannelError Channel → FileSystem → Prop where
  | opened {place : Place} {pipe : Pipe} (hstat : fs.stat path = .ok (place, .fifo pipe)) :
      Listens fs path (.ok ⟨path, place⟩) (fs.updatePipe place .addReader)
  | created {parent : Place} {name : String}
      (hwalk : fs.walk true path = .ok (.vacant parent name false)) :
      Listens fs path (.ok ⟨path, parent ++ [name]⟩)
        ((fs.set (parent ++ [name]) (.fifo (.idle fifoMode))).updatePipe (parent ++ [name]) .addReader)
  | notAFifo {place : Place} {node : Node} (hstat : fs.stat path = .ok (place, node))
      (hnode : ∀ pipe, node ≠ .fifo pipe) : Listens fs path (.error (.notAFifo path)) fs
  | unreachable {e : IoError} (hstat : fs.stat path = .error e) (he : e ≠ .notFound) :
      Listens fs path (.error (.io path e)) fs
  /-- There is no directory in which a pipe could be made. -/
  | homeless (hstat : fs.stat path = .error .notFound)
      (hwalk : ∀ parent name, fs.walk true path ≠ .ok (.vacant parent name false)) :
      Listens fs path (.error (.io path .notFound)) fs

namespace Listens

variable {fs fs' : FileSystem} {path : String} {r : Except ChannelError Channel} {channel : Channel}

/-- The pipe that is made is found at its path, where nothing was. -/
theorem made (hdangling : ¬ fs.Dangling path) {parent : Place} {name : String}
    (hwalk : fs.walk true path = .ok (.vacant parent name false)) :
    fs.stat path = .error .notFound ∧ fs.walk false path = .ok (.vacant parent name false) ∧
      fs.nodes[parent ++ [name]]? = none ∧
      (fs.set (parent ++ [name]) (.fifo (.idle fifoMode))).stat path =
        .ok (parent ++ [name], .fifo (.idle fifoMode)) := by
  have hstat : fs.stat path = .error .notFound := by rw [FileSystem.stat, hwalk]
  have hwalk' := FileSystem.walk_of_not_dangling hdangling hstat
  rw [hwalk] at hwalk'
  have hlink : ∀ target, Node.fifo (.idle fifoMode) ≠ .link target := by simp
  exact ⟨hstat, hwalk', FileSystem.stat_of_vacant (.inr ⟨rfl, hlink⟩) hwalk'⟩

theorem listen_eq (hdangling : ¬ fs.Dangling path) (h : Listens fs path r fs') :
    Channel.listen path fs = (r, fs') := by
  cases h with
  | opened hstat =>
    rw [Channel.listen, ensureFifo, hstat]
    dsimp only
    rw [hstat]
  | @created parent name hwalk =>
    obtain ⟨hstat, hwalk', -, hstat'⟩ := made hdangling hwalk
    rw [Channel.listen, ensureFifo, hstat]
    dsimp only
    rw [FileSystem.mkfifo, FileSystem.create, hwalk']
    dsimp only
    rw [hstat']
  | @notAFifo place node hstat hnode =>
    rw [Channel.listen, ensureFifo, hstat]
    cases node with
    | fifo pipe => exact absurd rfl (hnode pipe)
    | _ => rfl
  | @unreachable e hstat he =>
    rw [Channel.listen, ensureFifo, hstat]
    cases e with
    | notFound => exact absurd rfl he
    | _ => rfl
  | homeless hstat hwalk =>
    have hcreate : fs.mkfifo path fifoMode = .error .notFound := by
      rw [FileSystem.mkfifo, FileSystem.create, FileSystem.walk_of_not_dangling hdangling hstat]
      rw [FileSystem.stat] at hstat
      split at hstat
      · cases hstat
      · next parent name slash hvacant =>
        rw [hvacant]
        cases slash with
        | false => exact absurd hvacant (hwalk parent name)
        | true => rfl
      · next e herror =>
        obtain ⟨⟩ := hstat
        rw [herror]
    rw [Channel.listen, ensureFifo, hstat]
    dsimp only
    rw [hcreate]

/-! ### Consequences -/

theorem unchanged {e : ChannelError} (h : Listens fs path (.error e) fs') : fs' = fs := by
  cases h <;> rfl

/-- Nothing but a pipe has been added before the channel takes hold of it. -/
theorem exists_extends (hdangling : ¬ fs.Dangling path) (h : Listens fs path (.ok channel) fs') :
    ∃ middle pipe, Extends fs middle ∧ middle.stat path = .ok (channel.place, .fifo pipe) ∧
      fs' = middle.updatePipe channel.place .addReader := by
  cases h with
  | @opened place pipe hstat => exact ⟨fs, pipe, ⟨rfl, id⟩, hstat, rfl⟩
  | @created parent name hwalk =>
    obtain ⟨-, -, hplace, hstat⟩ := made hdangling hwalk
    exact ⟨_, _, FileSystem.extends_set hplace _, hstat, rfl⟩

/-- The path leads to a pipe that has a reader. -/
theorem stat_path (hdangling : ¬ fs.Dangling path) (h : Listens fs path (.ok channel) fs') :
    ∃ pipe, 0 < pipe.readers ∧ fs'.stat path = .ok (channel.place, .fifo pipe) := by
  obtain ⟨middle, pipe, -, hstat, rfl⟩ := h.exists_extends hdangling
  have hstat' := (retains_updatePipe middle channel.place .addReader).stat hstat
  rw [if_pos rfl] at hstat'
  exact ⟨pipe.addReader, Nat.succ_pos _, hstat'⟩

theorem stat_directory (hdangling : ¬ fs.Dangling path) (h : Listens fs path (.ok channel) fs')
    {p : String} {place : Place} (hstat : fs.stat p = .ok (place, .directory)) :
    fs'.stat p = .ok (place, .directory) := by
  obtain ⟨middle, pipe, hmiddle, -, rfl⟩ := h.exists_extends hdangling
  exact (retains_updatePipe middle channel.place .addReader).stat (hmiddle.stat hstat)

theorem canonical (hdangling : ¬ fs.Dangling path) (h : Listens fs path (.ok channel) fs')
    {place : Place} (hplace : fs.Canonical place) : fs'.Canonical place := by
  obtain ⟨middle, pipe, hmiddle, -, rfl⟩ := h.exists_extends hdangling
  exact (hplace.retained hmiddle.retains).retained (retains_updatePipe ..)

end Listens

variable {fs fs' : FileSystem} {path : String} {r : Except ChannelError Channel} {channel : Channel}

theorem listens_listen (hdangling : ¬ fs.Dangling path) :
    Listens fs path (Channel.listen path fs).1 (Channel.listen path fs).2 := by
  have listens {r : Except ChannelError Channel} {fs' : FileSystem} (h : Listens fs path r fs') :
      Listens fs path (Channel.listen path fs).1 (Channel.listen path fs).2 := by
    rwa [h.listen_eq hdangling]
  rcases hstat : fs.stat path with e | ⟨place, node⟩
  · by_cases he : e = .notFound
    · subst he
      by_cases hwalk : ∃ parent name, fs.walk true path = .ok (.vacant parent name false)
      · obtain ⟨parent, name, hwalk⟩ := hwalk
        exact listens (.created hwalk)
      · exact listens (.homeless hstat fun parent name h => hwalk ⟨parent, name, h⟩)
    · exact listens (.unreachable hstat he)
  · by_cases hnode : ∃ pipe, node = .fifo pipe
    · obtain ⟨pipe, rfl⟩ := hnode
      exact listens (.opened hstat)
    · exact listens (.notAFifo hstat fun pipe h => hnode ⟨pipe, h⟩)

/-- Listening does what is told of it, and nothing else, unless it meets a link that leads to
    nothing. -/
theorem listen_eq_iff (hdangling : ¬ fs.Dangling path) :
    Channel.listen path fs = (r, fs') ↔ Listens fs path r fs' := by
  constructor
  · intro h
    have hlistens := listens_listen hdangling
    rwa [h] at hlistens
  · exact Listens.listen_eq hdangling

end Control

end BuildServer
