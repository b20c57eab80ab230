import TensorFiles.Proofs.Gguf.Container.Calls
import TensorFiles.Proofs.Gguf.Container.Steps
/-!
This module contains what the calls that write do to a container of either mode. On one that is read
they never succeed. On one that is written they leave alone what only reading uses, and once their
checks are passed they do not fail.
-/

namespace TensorFiles.Gguf.Container

variable {α β : Type} {counted : Prop} {c c' c'' : Container} {e : Error}

/--
What no writing call changes: the mode, the counts of the header, and whether a value is awaited. If
`counted` holds, it adds no descriptor either.
-/
structure Follows (counted : Prop) (c c' : Container) : Prop where
  mode : c'.isCreated = c.isCreated
  tensorCount : c'.tensorCount = c.tensorCount
  recordCount : c'.recordCount = c.recordCount
  awaitsValue : c'.awaitsValue = c.awaitsValue
  current : c.current.rank ≤ c'.current.rank
  tensorsDone : counted → c'.tensorsDone = c.tensorsDone

/--
The call leaves a container that follows the one it is made on, also when it fails.
-/
def Following (counted : Prop) (call : Call α) : Prop :=
  ∀ c : Container, c.Follows counted (exec call c).2

/--
The call never succeeds on a container that is read.
-/
def Barred (call : Call α) : Prop :=
  ∀ c : Container, c.isCreated = false → ∃ e, (exec call c).1 = .error e

/--
The call fails only on a container that is read, and leaves it as it was.
-/
def Intact (call : Call α) : Prop :=
  ∀ (c c' : Container) (e : Error), exec call c = (.error e, c') → c.isCreated = false ∧ c' = c

/--
The call writes bytes and does nothing else. It fails only on a container that is read.
-/
structure OnlyWrites (call : Call Unit) : Prop where
  opened (c : Container) : c.isCreated = false → (exec call c).2 = c
  created (c : Container) : c.isCreated = true → (exec call c).1 = .ok ()
  following (counted : Prop) : Following counted call

theorem follows_refl (c : Container) : c.Follows counted c :=
  ⟨rfl, rfl, rfl, rfl, Nat.le_refl _, fun _ => rfl⟩

theorem Follows.trans (h : c.Follows counted c') (h' : c'.Follows counted c'')
    : c.Follows counted c'' where
  mode := h'.mode.trans h.mode
  tensorCount := h'.tensorCount.trans h.tensorCount
  recordCount := h'.recordCount.trans h.recordCount
  awaitsValue := h'.awaitsValue.trans h.awaitsValue
  current := Nat.le_trans h.current h'.current
  tensorsDone := fun hcounted => (h'.tensorsDone hcounted).trans (h.tensorsDone hcounted)

section

variable {x : Call α} {f : α → Call β}

theorem following_pure (a : α) : Following counted (pure a : Call α) :=
  fun c => c.follows_refl

theorem following_throw (e : Error) : Following counted (throw e : Call α) :=
  fun c => c.follows_refl

theorem following_lift (r : Except Error α) : Following counted (liftM r : Call α) :=
  fun c => c.follows_refl

theorem following_modify {g : Container → Container} (h : ∀ c : Container, c.Follows counted (g c))
    : Following counted (modify g : Call PUnit) :=
  fun c => h c

theorem Following.bind (hx : Following counted x) (hf : ∀ a, Following counted (f a))
    : Following counted (x >>= f) :=
  rel_snd_exec_bind (R := fun (c c' : Container) => c.Follows counted c')
    (fun _ _ _ => Follows.trans) hx hf

theorem Following.get_bind {f : Container → Call β} (hf : ∀ c, Following counted (f c))
    : Following counted (getThe Container >>= f) := by
  intro c
  rw [exec_bind_of_ok (exec_get c)]
  exact hf c c

theorem Barred.bind (hx : Barred x) : Barred (x >>= f) := by
  intro c hc
  obtain ⟨e, he⟩ := hx c hc
  rw [exec_bind]
  split
  . next hexec =>
    rw [hexec] at he
    simp at he
  . next e' c' _ => exact ⟨e', rfl⟩

/--
What comes first cannot make a container writable.
-/
theorem Following.barred_bind (hx : Following True x) (hf : ∀ a, Barred (f a))
    : Barred (x >>= f) := by
  intro c hc
  have hmode := (hx c).mode
  rw [exec_bind]
  split
  . next a c' hexec =>
    rw [hexec] at hmode
    exact hf a c' (hmode.trans hc)
  . next e c' _ => exact ⟨e, rfl⟩

theorem Barred.get_bind {f : Container → Call β} (hf : ∀ c, Barred (f c))
    : Barred (getThe Container >>= f) := by
  intro c hc
  rw [exec_bind_of_ok (exec_get c)]
  exact hf c c hc

section

variable {p : Prop} [Decidable p] {k : α → Call β} {rest : Call β}

theorem Following.guard (h : Following counted rest)
    : Following counted (if p then throw e >>= k else rest) := by
  split
  . intro c
    rw [exec_bind_of_error (exec_throw e c)]
    exact c.follows_refl
  . exact h

theorem Barred.guard (h : Barred rest) : Barred (if p then throw e >>= k else rest) := by
  split
  . exact fun c _ => ⟨e, rfl⟩
  . exact h

end

end

theorem exec_push_of_opened (h : c.isCreated = false) (bytes : List UInt8)
    : exec (push bytes) c = (.error (.gguf .notOpenForWriting), c) := by
  unfold push
  rw [exec_bind_of_ok (exec_get c)]
  cases hm : c.medium with
  | opened file data => rfl
  | created o => simp [isCreated, hm] at h

theorem exec_push_of_created {o : Output} (hm : c.medium = .created o) (bytes : List UInt8)
    : exec (push bytes) c = (.ok (), c.wrote (o.push bytes) bytes.length) := by
  unfold push
  rw [exec_bind_of_ok (exec_get c)]
  simp only [hm]
  rfl

theorem isCreated_of_medium {o : Output} (hm : c.medium = .created o) : c.isCreated = true := by
  unfold isCreated
  rw [hm]

theorem exists_output (h : c.isCreated = true) : ∃ o, c.medium = .created o := by
  cases hm : c.medium with
  | opened file data => simp [isCreated, hm] at h
  | created o => exact ⟨o, rfl⟩

theorem onlyWrites_pure : OnlyWrites (pure ()) :=
  ⟨fun _ _ => rfl, fun _ _ => rfl, fun _ => following_pure ()⟩

theorem barred_push (bytes : List UInt8) : Barred (push bytes) := by
  intro c hc
  rw [exec_push_of_opened hc]
  exact ⟨_, rfl⟩

theorem barred_pushString (s : String) : Barred (pushString s) :=
  (barred_push _).bind

theorem onlyWrites_push (bytes : List UInt8) : OnlyWrites (push bytes) where
  opened c hc := by rw [exec_push_of_opened hc]
  created c hc := by
    obtain ⟨o, hm⟩ := exists_output hc
    rw [exec_push_of_created hm]
  following counted c := by
    cases hc : c.isCreated with
    | false =>
      rw [exec_push_of_opened hc]
      exact c.follows_refl
    | true =>
      obtain ⟨o, hm⟩ := exists_output hc
      rw [exec_push_of_created hm]
      exact ⟨hc.symm, rfl, rfl, rfl, Nat.le_refl _, fun _ => rfl⟩

theorem OnlyWrites.bind {x : Call Unit} {f : Unit → Call Unit} (hx : OnlyWrites x)
    (hf : OnlyWrites (f ())) : OnlyWrites (x >>= f) where
  opened c hc := by
    have hfirst := hx.opened c hc
    rw [exec_bind]
    split
    . next hexec =>
      rw [hexec] at hfirst
      subst hfirst
      exact hf.opened _ hc
    . next hexec =>
      rw [hexec] at hfirst
      exact hfirst
  created c hc := by
    have hfirst := hx.created c hc
    have hmode := (hx.following True c).mode
    rw [exec_bind]
    split
    . next hexec =>
      rw [hexec] at hmode
      exact hf.created _ (hmode.trans hc)
    . next hexec =>
      rw [hexec] at hfirst
      simp at hfirst
  following counted := (hx.following counted).bind fun _ => hf.following counted

theorem onlyWrites_pushString (s : String) : OnlyWrites (pushString s) :=
  (onlyWrites_push _).bind (onlyWrites_push _)

theorem onlyWrites_forIn (dims : List Nat)
    : OnlyWrites (forIn dims PUnit.unit fun dim _ => do
        push (LittleEndian.encode 8 dim)
        pure (ForInStep.yield PUnit.unit)) := by
  induction dims with
  | nil => exact onlyWrites_pure
  | cons dim dims ih =>
    rw [List.forIn_cons]
    simp only [bind_assoc, pure_bind]
    exact (onlyWrites_push _).bind ih

theorem exec_padTo_eq (target : Nat)
    : exec (padTo target) c
        = if c.offset < target then
            if maxAllocation < target - c.offset then
              (.error (.about target .sum (.panic .capacity)), c)
            else
              exec (push (List.replicate (target - c.offset) 0)) c
          else
            (.ok (), c) := by
  unfold padTo
  rw [exec_bind_of_ok (exec_get c)]
  split
  . split
    . exact exec_bind_of_error (exec_throw _ c)
    . rfl
  . rfl

theorem following_padTo (target : Nat) : Following counted (padTo target) := by
  intro c
  rw [exec_padTo_eq]
  split
  . split
    . exact c.follows_refl
    . exact (onlyWrites_push _).following counted c
  . exact c.follows_refl

/--
On a container that is read no zeros are written.
-/
theorem eq_of_exec_padTo_of_opened {target : Nat} {r : Except Error Unit}
    (h : exec (padTo target) c = (r, c')) (hopened : c'.isCreated = false) : c' = c := by
  have hfollowing : Following True (padTo target) := following_padTo target
  have hmode := (hfollowing c).mode
  rw [h] at hmode
  rw [exec_padTo_eq] at h
  split at h
  . split at h
    . exact (congrArg Prod.snd h).symm
    . have hsame := (onlyWrites_push (List.replicate (target - c.offset) 0)).opened c
        (hmode.symm.trans hopened)
      rw [h] at hsame
      exact hsame
  . exact (congrArg Prod.snd h).symm

theorem intact_modify (f : Container → Container) : Intact (modify f) := by
  intro c c' e h
  rw [exec_modify] at h
  simp at h

theorem OnlyWrites.eq_of_error {call : Call Unit} (hcall : OnlyWrites call)
    (h : exec call c = (.error e, c')) : c' = c := by
  cases hc : c.isCreated with
  | false =>
    have hsame := hcall.opened c hc
    rw [h] at hsame
    exact hsame
  | true =>
    have hok := hcall.created c hc
    rw [h] at hok
    simp at hok

theorem Intact.eq_of_error {call : Call α} (hcall : Intact call)
    (h : exec call c = (.error e, c')) : c' = c :=
  (hcall c c' e h).2

theorem exec_padTo_eq_error {target : Nat} (h : exec (padTo target) c = (.error e, c'))
    : c' = c := by
  rw [exec_padTo_eq] at h
  split at h
  . split at h
    . exact (congrArg Prod.snd h).symm
    . exact OnlyWrites.eq_of_error (onlyWrites_push _) h
  . simp at h

theorem OnlyWrites.intact_bind {x : Call Unit} {f : Unit → Call Unit} (hx : OnlyWrites x)
    (hf : Intact (f ())) : Intact (x >>= f) := by
  intro c c' e h
  have hopened (r : Except Error Unit) (c₁ : Container) (hexec : exec x c = (r, c₁))
      (hc : c.isCreated = false) : c₁ = c := by
    have hsame := hx.opened c hc
    rw [hexec] at hsame
    exact hsame
  rw [exec_bind_eq_error_iff] at h
  rcases h with hexec | ⟨_, c₁, hexec, h⟩
  . have hc : c.isCreated = false := by
      by_contra hc
      have hok := hx.created c (by simpa using hc)
      rw [hexec] at hok
      simp at hok
    exact ⟨hc, hopened _ _ hexec hc⟩
  . obtain ⟨hc₁, rfl⟩ := hf c₁ c' e h
    have hmode := (hx.following True c).mode
    rw [hexec] at hmode
    have hc := hmode.symm.trans hc₁
    exact ⟨hc, hopened _ _ hexec hc⟩

section

variable {key : String} {value : MetaValue} {type : ValueType} {bytes : List UInt8}
  {t : Descriptor}

theorem following_appendEncoded : Following counted (appendEncoded key type bytes) :=
  .get_bind fun _ => (following_lift _).bind fun _ =>
    ((onlyWrites_pushString _).following _).bind fun _ =>
    ((onlyWrites_push _).following _).bind fun _ =>
    ((onlyWrites_push _).following _).bind fun _ =>
    following_modify fun _ => ⟨rfl, rfl, rfl, rfl, Nat.le_refl _, fun _ => rfl⟩

theorem barred_appendEncoded : Barred (appendEncoded key type bytes) :=
  .get_bind fun _ => (following_lift _).barred_bind fun _ => (barred_pushString _).bind

theorem following_appendRecord : Following counted (appendRecord key value) :=
  (following_lift _).bind fun _ => following_appendEncoded

theorem barred_appendRecord : Barred (appendRecord key value) :=
  (following_lift _).barred_bind fun _ => barred_appendEncoded

theorem follows_leftMetadata (c : Container) : c.Follows counted c.leftMetadata := by
  have hrank := c.rank_le_leftMetadata
  rw [leftMetadata_eq] at hrank ⊢
  exact ⟨rfl, rfl, rfl, rfl, hrank, fun _ => rfl⟩

theorem leftMetadata_ne_metadata (c : Container) : c.leftMetadata.current ≠ .metadata := by
  unfold leftMetadata
  split
  . simp
  . next hs => exact hs

/--
What is left of appending a descriptor once its rank and its offset have been checked.
-/
def finishDescriptor (t : Descriptor) : Call Unit := do
  let size ← (t.byteSize : Except Error Nat)
  pushString t.name
  push (LittleEndian.encode 4 t.shape.length)
  for dim in t.shape.reverse do
    push (LittleEndian.encode 8 dim)
  push (LittleEndian.encode 4 t.type.code)
  push (LittleEndian.encode 8 t.offset)
  modify fun c =>
    { c with extents := c.extents ++ [(t.offset, size)], tensorsDone := c.tensorsDone + 1 }

theorem following_finishDescriptor : Following False (finishDescriptor t) :=
  (following_lift _).bind fun _ => ((onlyWrites_pushString _).following _).bind fun _ =>
    ((onlyWrites_push _).following _).bind fun _ =>
    ((onlyWrites_forIn _).following _).bind fun _ =>
    ((onlyWrites_push _).following _).bind fun _ =>
    ((onlyWrites_push _).following _).bind fun _ =>
    following_modify fun _ => ⟨rfl, rfl, rfl, rfl, Nat.le_refl _, False.elim⟩

theorem barred_finishDescriptor : Barred (finishDescriptor t) :=
  (following_lift _).barred_bind fun _ => (barred_pushString _).bind

/--
A size that cannot be told is found out before anything is written.
-/
theorem exec_finishDescriptor_eq_error (h : exec (finishDescriptor t) c = (.error e, c'))
    : c' = c := by
  unfold finishDescriptor at h
  rw [exec_bind_eq_error_iff] at h
  rcases h with h | ⟨_, _, hsize, h⟩
  . rw [exec_lift_eq_iff] at h
    exact h.2.symm
  . rw [exec_lift_eq_iff] at hsize
    rw [hsize.2]
    refine Intact.eq_of_error ?_ h
    exact (onlyWrites_pushString _).intact_bind <| (onlyWrites_push _).intact_bind <|
      (onlyWrites_forIn _).intact_bind <| (onlyWrites_push _).intact_bind <|
      (onlyWrites_push _).intact_bind (intact_modify _)

/--
A descriptor is counted, and it is never appended to the metadata.
-/
theorem leftMetadata_follows_appendDescriptor (c : Container)
    : c.leftMetadata.Follows False (exec (appendDescriptor t) c).2 := by
  have hrest {rest : Call Unit} (h : Following False rest)
      : c.leftMetadata.Follows False (exec rest c.leftMetadata).2 := h _
  unfold appendDescriptor
  rw [exec_bind_of_ok (exec_modify _ c)]
  apply hrest
  refine .get_bind fun c => (following_lift _).bind fun _ => .guard (.guard ?_)
  split
  . exact .guard following_finishDescriptor
  . exact following_finishDescriptor

theorem barred_appendDescriptor : Barred (appendDescriptor t) := by
  refine (following_modify fun c => c.follows_leftMetadata).barred_bind fun _ =>
    .get_bind fun c => (following_lift _).barred_bind fun _ => .guard (.guard ?_)
  split
  . exact .guard barred_finishDescriptor
  . exact barred_finishDescriptor

theorem following_startData : Following counted startData := by
  refine .get_bind fun c => ?_
  split
  . refine (following_modify ?_).bind fun _ => (following_padTo _).bind fun _ =>
      following_modify fun _ => ⟨rfl, rfl, rfl, rfl, Nat.le_refl _, fun _ => rfl⟩
    exact fun c => ⟨rfl, rfl, rfl, rfl, c.current.rank_le_data, fun _ => rfl⟩
  . exact following_pure _

theorem following_appendPayload : Following counted (appendPayload bytes) := by
  refine following_startData.bind fun _ => .get_bind fun c => ?_
  split
  . exact following_throw _
  . exact .guard <| (following_lift _).bind fun _ =>
      (following_padTo _).bind fun _ =>
      ((onlyWrites_push _).following _).bind fun _ =>
      following_modify fun _ => ⟨rfl, rfl, rfl, rfl, Nat.le_refl _, fun _ => rfl⟩

theorem barred_appendPayload : Barred (appendPayload bytes) := by
  refine following_startData.barred_bind fun _ => .get_bind fun c => ?_
  split
  . exact fun _ _ => ⟨_, rfl⟩
  . exact .guard <| (following_lift _).barred_bind fun _ =>
      (following_padTo _).barred_bind fun _ => (barred_push _).bind

theorem following_setAlignment {alignment : Nat} : Following counted (setAlignment alignment) :=
  .guard <| .get_bind fun _ => .guard <|
    following_modify fun _ => ⟨rfl, rfl, rfl, rfl, Nat.le_refl _, fun _ => rfl⟩

end

/--
Nothing is ever written to a container that is read.
-/
theorem barred_call {call : WriteCall} (h : call.aligns = false) : Barred call.call := by
  cases call with
  | record key value => exact barred_appendRecord
  | encoded r => exact barred_appendEncoded
  | descriptor t => exact barred_appendDescriptor
  | payload bytes => exact barred_appendPayload
  | align alignment => simp [WriteCall.aligns] at h

end TensorFiles.Gguf.Container
