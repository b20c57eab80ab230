import TensorFiles.Disk
import TensorFiles.Proofs.Result
/-!
This module contains what making, writing and removing a file does to what its path leads to. None
of these takes a directory away, so that a path still leads to the same place.
-/

namespace TensorFiles.Disk

/--
Every directory of `d` is one of `d'`.
-/
def Keeps (d d' : Disk) : Prop :=
  ∀ place, d.node? place = some .directory → d'.node? place = some .directory

variable {d d' : Disk} {path : String} {place : Place} {id : Nat} {data : List UInt8}

theorem step_of_keeps {name : List Char} {next : Place} (h : d.Keeps d')
    (hstep : d.step place name = .ok next) : d'.step place name = .ok next := by
  unfold step at hstep ⊢
  split at hstep
  . simp at hstep
  . simp at hstep
  . next hdir =>
    rw [h place hdir]
    exact hstep

theorem foldlM_step_of_keeps {names : List (List Char)} {first : Place} (h : d.Keeps d')
    (hfold : names.foldlM d.step first = .ok place)
    : names.foldlM d'.step first = .ok place := by
  induction names generalizing first with
  | nil => exact hfold
  | cons name names ih =>
    rw [List.foldlM_cons, bind_eq_ok_iff] at hfold ⊢
    obtain ⟨next, hstep, hrest⟩ := hfold
    exact ⟨next, step_of_keeps h hstep, ih hrest⟩

theorem resolve_of_keeps (h : d.Keeps d') (hr : d.resolve path = .ok place)
    : d'.resolve path = .ok place := by
  unfold resolve at hr ⊢
  rw [bind_eq_ok_iff] at hr ⊢
  obtain ⟨u, hvalid, hfold⟩ := hr
  exact ⟨u, hvalid, foldlM_step_of_keeps h hfold⟩

theorem find_eq_file_iff
    : d.find path = .ok (.file id data) ↔
      ∃ place, d.resolve path = .ok place ∧ d.node? place = some (.file id data) ∧
        endsInSlash path = false := by
  unfold find
  cases hr : d.resolve path with
  | error e => simp [bind, Except.bind]
  | ok place =>
    simp only [bind, Except.bind, Except.ok.injEq, exists_eq_left']
    split
    . next hn => simp [hn]
    . next hn => simp [hn]
    . next hn =>
      rw [hn]
      split
      . next hs => simp [hs]
      . next hs => simp [hs]

theorem find_eq_notFound (hr : d.resolve path = .ok place) (hn : d.node? place = none)
    : d.find path = .error .notFound := by
  unfold find
  rw [hr]
  simp only [bind, Except.bind]
  rw [hn]

theorem map_of_find (h : d.find path = .ok (.file id data)) : d.map path = .ok (id, data) := by
  unfold map
  rw [h]
  rfl

theorem find_of_map (h : d.map path = .ok (id, data)) : d.find path = .ok (.file id data) := by
  unfold map at h
  rw [bind_eq_ok_iff] at h
  obtain ⟨node, hfind, h⟩ := h
  cases node with
  | file id' data' =>
    rw [Except.ok.injEq, Prod.mk.injEq] at h
    rw [hfind, h.1, h.2]
  | directory => simp at h

theorem node?_eq_directory_of_above (h : place = ["/"] ∨ isAbove place)
    : d.node? place = some .directory := by
  unfold node?
  rw [if_pos h]

theorem node?_put_self (node : Node) (h : d.node? place ≠ some .directory)
    : (d.put place node).node? place = some node := by
  have hp : ¬ (place = ["/"] ∨ isAbove place) := fun hp => h (node?_eq_directory_of_above hp)
  unfold node? put
  rw [if_neg hp]
  simp

theorem find?_filter_ne {nodes : List (Place × Node)} {p : Place} (h : p ≠ place)
    : (nodes.filter (fun q => q.1 != place)).find? (fun q => q.1 == p)
        = nodes.find? (fun q => q.1 == p) := by
  rw [List.find?_filter]
  congr 1
  funext q
  by_cases hq : q.1 = p
  . simp [hq, h]
  . simp [hq]

theorem node?_put_of_ne (node : Node) {p : Place} (h : p ≠ place)
    : (d.put place node).node? p = d.node? p := by
  unfold node? put
  dsimp only
  rw [List.find?_cons_of_neg (by simpa using Ne.symm h), find?_filter_ne h]

theorem keeps_put (node : Node) (h : d.node? place ≠ some .directory)
    : d.Keeps (d.put place node) := by
  intro p hp
  by_cases heq : p = place
  . subst heq
    exact absurd hp h
  . rw [node?_put_of_ne node heq]
    exact hp

theorem exists_of_create (h : d.create path = .ok (d', id))
    : endsInSlash path = false ∧ ∃ place, d.resolve path = .ok place ∧
        ((∃ data, d.node? place = some (.file id data)) ∨ d.node? place = none) ∧
        d'.nodes = (d.put place (.file id [])).nodes := by
  unfold create at h
  rw [bind_eq_ok_iff] at h
  obtain ⟨_, _, h⟩ := h
  split at h
  . rw [bind_eq_ok_iff] at h
    obtain ⟨_, _, h⟩ := h
    rw [bind_eq_ok_iff] at h
    obtain ⟨_, h, _⟩ := h
    simp at h
  . next hslash =>
    rw [bind_eq_ok_iff] at h
    obtain ⟨place, hr, h⟩ := h
    refine ⟨by simpa using hslash, place, hr, ?_⟩
    split at h
    . simp at h
    . next old data hn =>
      rw [pure_eq_ok_iff, Prod.mk.injEq] at h
      obtain ⟨rfl, rfl⟩ := h
      exact ⟨.inl ⟨data, hn⟩, rfl⟩
    . next hn =>
      rw [pure_eq_ok_iff, Prod.mk.injEq] at h
      obtain ⟨rfl, rfl⟩ := h
      exact ⟨.inr hn, rfl⟩

theorem node?_of_nodes_eq (h : d'.nodes = d.nodes) (place : Place)
    : d'.node? place = d.node? place := by
  unfold node?
  rw [h]

theorem find_create (h : d.create path = .ok (d', id)) : d'.find path = .ok (.file id []) := by
  obtain ⟨hslash, place, hr, hbefore, hnodes⟩ := exists_of_create h
  have hne : d.node? place ≠ some .directory := by
    cases hbefore with
    | inl hfile =>
      obtain ⟨data, hfile⟩ := hfile
      simp [hfile]
    | inr hnone => simp [hnone]
  rw [find_eq_file_iff]
  refine ⟨place, ?_, ?_, hslash⟩
  . apply resolve_of_keeps _ hr
    intro p hp
    rw [node?_of_nodes_eq hnodes]
    exact keeps_put _ hne p hp
  . rw [node?_of_nodes_eq hnodes]
    exact node?_put_self _ hne

theorem find_of_create (h : d.create path = .ok (d', id))
    : (∃ data, d.find path = .ok (.file id data)) ∨ d.find path = .error .notFound := by
  obtain ⟨hslash, place, hr, hbefore, _⟩ := exists_of_create h
  cases hbefore with
  | inl hfile =>
    obtain ⟨data, hfile⟩ := hfile
    exact .inl ⟨data, find_eq_file_iff.2 ⟨place, hr, hfile, hslash⟩⟩
  | inr hnone => exact .inr (find_eq_notFound hr hnone)

theorem overwrite_nil {offset : Nat} (h : offset ≤ data.length)
    : overwrite data offset [] = data := by
  unfold overwrite
  rw [Nat.sub_eq_zero_of_le h]
  simp

theorem overwrite_length (data patch : List UInt8)
    : overwrite data data.length patch = data ++ patch := by
  simp [overwrite]

theorem overwrite_append (front : List UInt8) {middle patch : List UInt8}
    (h : patch.length = middle.length) (rest : List UInt8)
    : overwrite (front ++ middle ++ rest) front.length patch = front ++ patch ++ rest := by
  have hoff : front.length - (front ++ middle ++ rest).length = 0 := by
    simp only [List.length_append]
    omega
  unfold overwrite
  rw [hoff, h, List.append_assoc front, List.take_left, ← List.append_assoc, ← List.length_append,
    List.drop_left]
  simp

/--
What a node is after a write into the file with the number `id`.
-/
def Node.patched (id offset : Nat) (patch : List UInt8) : Node → Node
  | .file i data => if i = id then .file i (overwrite data offset patch) else .file i data
  | .directory => .directory

theorem node?_writeAt {offset : Nat} {patch : List UInt8} (hp : patch ≠ [])
    : (d.writeAt id offset patch).node? place
        = (d.node? place).map (Node.patched id offset patch) := by
  have hnodes : (d.writeAt id offset patch).nodes
      = d.nodes.map (fun p => (p.1, Node.patched id offset patch p.2)) := by
    unfold writeAt
    rw [if_neg hp]
    apply List.map_congr_left
    intro p _
    obtain ⟨place, node⟩ := p
    cases node with
    | directory => rfl
    | file i data =>
      dsimp only [Node.patched]
      split
      . rfl
      . rfl
  unfold node?
  split
  . rfl
  . rw [hnodes, List.find?_map, Option.map_map, Option.map_map]
    rfl

theorem keeps_writeAt (offset : Nat) (patch : List UInt8)
    : d.Keeps (d.writeAt id offset patch) := by
  intro p hdir
  by_cases hp : patch = []
  . unfold writeAt
    rw [if_pos hp]
    exact hdir
  . rw [node?_writeAt hp, hdir]
    rfl

theorem find_writeAt {offset : Nat} (patch : List UInt8) (h : d.find path = .ok (.file id data))
    (hoff : offset ≤ data.length)
    : (d.writeAt id offset patch).find path = .ok (.file id (overwrite data offset patch)) := by
  by_cases hp : patch = []
  . subst hp
    rw [overwrite_nil hoff]
    exact h
  . obtain ⟨place, hr, hnode, hslash⟩ := find_eq_file_iff.1 h
    refine find_eq_file_iff.2 ⟨place, resolve_of_keeps (keeps_writeAt offset patch) hr, ?_, hslash⟩
    rw [node?_writeAt hp, hnode]
    simp [Node.patched]

theorem find_append (patch : List UInt8) (h : d.find path = .ok (.file id data))
    : (d.writeAt id data.length patch).find path = .ok (.file id (data ++ patch)) := by
  rw [find_writeAt patch h (Nat.le_refl _), overwrite_length]

theorem find_write {content : List UInt8} (h : d.write path content = .ok d')
    : ∃ id, d'.find path = .ok (.file id content) := by
  unfold write at h
  rw [bind_eq_ok_iff] at h
  obtain ⟨⟨created, id⟩, hcreate, h⟩ := h
  have happend := find_append content (find_create hcreate)
  rw [List.length_nil, List.nil_append] at happend
  rw [pure_eq_ok_iff] at h
  exact ⟨id, h ▸ happend⟩

theorem exists_write_of_create (h : ∃ made, d.create path = .ok made) (content : List UInt8)
    : ∃ d', d.write path content = .ok d' := by
  obtain ⟨⟨created, id⟩, hcreate⟩ := h
  exact ⟨_, bind_eq_ok_iff.2 ⟨_, hcreate, rfl⟩⟩

theorem find_remove (h : d.find path = .ok (.file id data))
    : (d.remove path).find path = .error .notFound := by
  obtain ⟨place, hr, hnode, hslash⟩ := find_eq_file_iff.1 h
  have hremove : d.remove path = { d with nodes := d.nodes.filter (fun p => p.1 != place) } := by
    unfold remove
    rw [h, hr]
  have hp : ¬ (place = ["/"] ∨ isAbove place) := by
    intro hp
    rw [node?_eq_directory_of_above hp] at hnode
    simp at hnode
  have hnone : (d.remove path).node? place = none := by
    rw [hremove]
    unfold node?
    rw [if_neg hp]
    simp
  refine find_eq_notFound (resolve_of_keeps ?_ hr) hnone
  intro p hdir
  have hne : p ≠ place := by
    intro heq
    rw [heq, hnode] at hdir
    simp at hdir
  rw [hremove]
  unfold node? at hdir ⊢
  rw [find?_filter_ne hne]
  exact hdir

end TensorFiles.Disk
