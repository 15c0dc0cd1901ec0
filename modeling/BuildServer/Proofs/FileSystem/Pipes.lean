-- SUMMARY: What is kept when pipes are used: every path leads where it led, at most to a changed pipe.
import BuildServer.Proofs.FileSystem.Walk

/-!
# Pipes in use

Pipes are opened, filled and read while everything else stays as it is. A walk
takes no notice of that: it goes through directories and links only, so it ends
at the same place, at the same node or at the same pipe in another state.
-/

namespace BuildServer

/-- The node with its pipe changed, if it is one. -/
def Node.mapPipe (f : Pipe → Pipe) : Node → Node
  | .fifo pipe => .fifo (f pipe)
  | node => node

@[simp] theorem Node.mapPipe_id (node : Node) : node.mapPipe id = node := by
  cases node <;> rfl

namespace FileSystem

/-- Whatever was there is still there, and `f` tells what has become of the pipes. -/
structure Retains (f : Place → Pipe → Pipe) (fs fs' : FileSystem) : Prop where
  cwd : fs'.cwd = fs.cwd
  kept : ∀ {q : Place} {node : Node}, fs.node? q = some node → fs'.node? q = some (node.mapPipe (f q))

namespace Retains

variable {f : Place → Pipe → Pipe} {fs fs' : FileSystem} {follow : Bool} {here place : Place}
variable {node : Node} {segs : List String} {jump jump' : Place → List String → Except IoError Target}

/-- A walk that ends at a node takes the same way. -/
theorem steps (h : Retains f fs fs')
    (hjump : ∀ here segs, jump here segs = .ok (.found place node) →
      jump' here segs = .ok (.found place (node.mapPipe (f place))))
    (hfound : fs.steps follow jump here segs = .ok (.found place node)) :
    fs'.steps follow jump' here segs = .ok (.found place (node.mapPipe (f place))) := by
  induction here, segs using trail.induct with
  | case1 =>
    obtain ⟨⟩ := hfound
    rfl
  | case2 here seg rest hidle ih =>
    rw [steps_idle hidle] at hfound ⊢
    exact ih hfound
  | case3 here rest hidle ih =>
    rw [steps_up] at hfound ⊢
    exact ih hfound
  | case4 here seg rest hidle hup ih =>
    obtain ⟨hlong, ⟨hnode, hrest⟩ | ⟨target, hnode, hlast, htarget⟩ | ⟨hnode, hne, rfl, rfl, hlink⟩⟩ :=
      steps_name_found hidle hup hfound <;>
      rw [steps_name hidle hup, if_neg hlong, ← node?_concat, h.kept hnode]
    -- Only a directory or a link is walked on from, and these are what they were.
    · exact ih hrest
    · dsimp only [Node.mapPipe]
      rw [if_neg hlast]
      exact hjump _ _ htarget
    · cases node with
      | directory => exact absurd rfl hne
      | link target =>
        rw [hlink target rfl]
        rfl
      | _ => rfl

theorem walkFrom (h : Retains f fs fs') {links : Nat}
    (hfound : fs.walkFrom follow links here segs = .ok (.found place node)) :
    fs'.walkFrom follow links here segs = .ok (.found place (node.mapPipe (f place))) := by
  induction links generalizing here segs with
  | zero =>
    refine h.steps ?_ hfound
    rintro _ _ ⟨⟩
  | succ links ih => exact h.steps (fun _ _ => ih) hfound

theorem stat (h : Retains f fs fs') {path : String} (hstat : fs.stat path = .ok (place, node)) :
    fs'.stat path = .ok (place, node.mapPipe (f place)) := by
  obtain ⟨hfault, hfound⟩ := stat_eq_ok_iff.mp hstat
  have horigin : fs'.origin path = fs.origin path := by rw [origin, origin, h.cwd]
  rw [← horigin] at hfound
  exact stat_eq_ok_iff.mpr ⟨hfault, h.walkFrom hfound⟩

end Retains

/-- Changing one pipe changes nothing else. -/
theorem retains_updatePipe (fs : FileSystem) (p : Place) (f : Pipe → Pipe) :
    Retains (fun q => if q = p then f else id) fs (fs.updatePipe p f) := by
  rw [updatePipe]
  split
  · next pipe hpipe =>
    refine ⟨rfl, ?_⟩
    intro q node hnode
    obtain rfl | ⟨up, name, rfl⟩ := List.eq_nil_or_concat q
    · obtain rfl : Node.directory = node := by simpa using hnode
      rfl
    · rw [List.concat_eq_append] at hnode ⊢
      rw [node?_concat, getElem?_set]
      split
      · next heq =>
        rw [← heq, hpipe] at hnode
        obtain rfl := Option.some.inj hnode
        simp [heq, Node.mapPipe]
      · next hne => simp [Ne.symm hne, ← node?_concat, hnode]
  · next hother =>
    refine ⟨rfl, ?_⟩
    intro q node hnode
    split
    · next heq =>
      subst heq
      cases node with
      | fifo pipe => exact absurd hnode (hother pipe)
      | _ => exact hnode
    · simpa using hnode

end FileSystem

end BuildServer
