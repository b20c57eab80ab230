import TensorFiles.Gguf.Load
import TensorFiles.Proofs.Gguf.Delimited
/-!
This module contains what the calls on the metadata of a container are made of. They read on, fail,
and change what is known of the metadata, but they neither look at the number of descriptors nor
change it.
-/

namespace TensorFiles.Gguf.Container

/--
The container `d` has come as far as `c`. Strings may be longer in `d`, and `counted` says whether
both have the same number of descriptors.
-/
structure Alike (counted : Prop) (c d : Container) : Prop where
  limit : c.maxStringLen ≤ d.maxStringLen
  offset : d.offset = c.offset
  alignment : d.alignment = c.alignment
  current : d.current = c.current
  recordCount : d.recordCount = c.recordCount
  recordsDone : d.recordsDone = c.recordsDone
  awaitsValue : d.awaitsValue = c.awaitsValue
  dataStart : d.dataStart? = c.dataStart?
  tensors : counted → d.tensorCount = c.tensorCount ∧ d.tensorsDone = c.tensorsDone

/--
The container `c'` is what `c` has become by taking `bytes`.
-/
structure Takes (c : Container) (bytes : List UInt8) (c' : Container) : Prop where
  data : c'.data = c.data
  limit : c'.maxStringLen = c.maxStringLen
  offset : c'.offset = c.offset + bytes.length

theorem takes_nil (c : Container) : c.Takes [] c :=
  ⟨rfl, rfl, rfl⟩

theorem Takes.trans {c c' c'' : Container} {bytes bytes' : List UInt8} (h : c.Takes bytes c')
    (h' : c'.Takes bytes' c'') : c.Takes (bytes ++ bytes') c'' := by
  refine ⟨h'.data.trans h.data, h'.limit.trans h.limit, ?_⟩
  rw [h'.offset, h.offset, List.length_append, Nat.add_assoc]

/--
The change takes no bytes, leaves the descriptors alone, and keeps containers alike.
-/
structure Neutral (f : Container → Container) : Prop where
  takes (c : Container) : c.Takes [] (f c)
  tensors (c : Container) :
    (f c).tensorCount = c.tensorCount ∧ (f c).tensorsDone = c.tensorsDone
  alike {counted : Prop} {c d : Container} :
    Alike counted c d → Alike counted (f c) (f d)

/--
The call is put together from reads and neutral changes. What it looks at is the same in containers
that are alike, however many descriptors they have.
-/
inductive MetadataCall : {α : Type} → Call α → Prop where
  | pure {α : Type} (a : α) : MetadataCall (pure a)
  | throw_bind {α β : Type} (e : Error) (f : α → Call β) :
    MetadataCall ((throw e : Call α) >>= f)
  | lift {α : Type} (x : Except Error α) : MetadataCall (liftM x : Call α)
  | modify {f : Container → Container} (hf : Neutral f) : MetadataCall (modify f)
  | advance {α : Type} {least : Nat} {read : Read α} (h : Delimited least read) :
    MetadataCall (advance read)
  | bind {α β : Type} {x : Call α} {f : α → Call β} (hx : MetadataCall x)
    (hf : ∀ a, MetadataCall (f a)) : MetadataCall (x >>= f)
  | get_bind {α : Type} {f : Container → Call α} (hf : ∀ c, MetadataCall (f c))
    (hsame : ∀ c d, Alike False c d → f d = f c) : MetadataCall (getThe Container >>= f)

theorem metadataCall_setAlignment (alignment : Nat) : MetadataCall (setAlignment alignment) := by
  unfold setAlignment
  split
  . exact .throw_bind _ _
  . apply MetadataCall.get_bind
    . intro c
      dsimp only
      split
      . exact .throw_bind _ _
      . apply MetadataCall.modify
        exact ⟨fun c => ⟨rfl, rfl, rfl⟩, fun c => ⟨rfl, rfl⟩,
          fun halike => { halike with alignment := rfl }⟩
    . intro c d halike
      dsimp only
      rw [halike.current]

theorem metadataCall_nextKey : MetadataCall nextKey := by
  apply MetadataCall.get_bind
  . intro c
    apply (MetadataCall.lift _).bind
    intro _
    dsimp only
    split
    . exact .throw_bind _ _
    . split
      . refine .bind (.modify ?_) (fun _ => .pure none)
        exact ⟨fun c => ⟨rfl, rfl, rfl⟩, fun c => ⟨rfl, rfl⟩,
          fun halike => { halike with current := rfl }⟩
      . apply (MetadataCall.advance delimited_string).bind
        intro key
        refine .bind (.modify ?_) (fun _ => .pure (some key))
        exact ⟨fun c => ⟨rfl, rfl, rfl⟩, fun c => ⟨rfl, rfl⟩,
          fun halike => { halike with awaitsValue := rfl }⟩
  . intro c d halike
    simp only [expectSection, halike.current, halike.awaitsValue, halike.recordsDone,
      halike.recordCount]

theorem metadataCall_readValue : MetadataCall readValue := by
  apply MetadataCall.get_bind
  . intro c
    apply (MetadataCall.lift _).bind
    intro _
    dsimp only
    split
    . exact .throw_bind _ _
    . apply (MetadataCall.advance delimited_typedValue).bind
      intro value
      refine .bind (.modify ?_) (fun _ => .pure value)
      refine ⟨fun c => ⟨rfl, rfl, rfl⟩, fun c => ⟨rfl, rfl⟩, fun halike => ?_⟩
      exact { halike with awaitsValue := rfl
                          recordsDone := congrArg (· + 1) halike.recordsDone }
  . intro c d halike
    simp only [expectSection, halike.current, halike.awaitsValue]

theorem metadataCall_readRecords (left : Nat) (records : Table MetaValue)
    : MetadataCall (readRecords left records) := by
  induction left generalizing records with
  | zero =>
    apply metadataCall_nextKey.bind
    exact fun _ => .pure records
  | succ left ih =>
    apply metadataCall_nextKey.bind
    intro key?
    cases key? with
    | none => exact .pure records
    | some key =>
      apply metadataCall_readValue.bind
      intro value
      dsimp only
      split
      . apply (MetadataCall.lift _).bind
        intro alignment
        apply (metadataCall_setAlignment alignment).bind
        exact fun _ => ih _
      . exact ih _

theorem metadataCall_readMetadata : MetadataCall readMetadata := by
  apply MetadataCall.get_bind
  . exact fun c => metadataCall_readRecords _ _
  . intro c d halike
    rw [halike.recordCount, halike.recordsDone]

end TensorFiles.Gguf.Container
