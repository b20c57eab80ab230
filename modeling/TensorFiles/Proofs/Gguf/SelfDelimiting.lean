import TensorFiles.Proofs.Gguf.Stored
/-!
This module contains that metadata values tell by themselves where they end. What a value is read
from is no beginning of what another one is read from, and no read leaves the data it is made in,
also if it fails.
-/

namespace TensorFiles.Gguf

/--
The cursor `c'` is at the place of `c` in the data or further on, but not behind its end.
-/
structure Cursor.Reaches (c c' : Cursor) : Prop where
  data : c'.data = c.data
  maxStringLen : c'.maxStringLen = c.maxStringLen
  offset_le : c.offset ≤ c'.offset
  le_length : c.offset < c'.offset → c'.offset ≤ c.data.length

theorem Cursor.Reaches.refl (c : Cursor) : c.Reaches c :=
  ⟨rfl, rfl, Nat.le_refl _, fun h => absurd h (Nat.lt_irrefl _)⟩

theorem Cursor.Reaches.trans {c c₁ c₂ : Cursor} (h : c.Reaches c₁) (h' : c₁.Reaches c₂)
    : c.Reaches c₂ := by
  obtain ⟨hdata, hlimit, hle, hend⟩ := h
  obtain ⟨hdata', hlimit', hle', hend'⟩ := h'
  rw [hdata] at hend'
  exact ⟨hdata'.trans hdata, hlimit'.trans hlimit, by omega, by omega⟩

/--
Wherever the read stops, and whether it succeeds or not, it has not left the data.
-/
def StaysInside (read : Read α) : Prop :=
  ∀ c : Cursor, c.Reaches (exec read c).2

section

variable {α β : Type}

theorem staysInside_pure (a : α) : StaysInside (pure a) :=
  fun c => .refl c

theorem staysInside_throw (e : Error) : StaysInside (throw e : Read α) :=
  fun c => .refl c

theorem staysInside_get : StaysInside (getThe Cursor) :=
  fun c => .refl c

theorem staysInside_lift (x : Except Error α) : StaysInside (liftM x) :=
  fun c => .refl c

theorem StaysInside.bind {x : Read α} {f : α → Read β} (hx : StaysInside x)
    (hf : ∀ a, StaysInside (f a)) : StaysInside (x >>= f) :=
  rel_snd_exec_bind (fun _ _ _ => .trans) hx hf

theorem StaysInside.map {x : Read α} (hx : StaysInside x) (f : α → β) : StaysInside (f <$> x) := by
  rw [map_eq_pure_bind]
  exact hx.bind (fun a => staysInside_pure (f a))

end

theorem staysInside_bytes (n : Nat) : StaysInside (Read.bytes n) := by
  intro c
  unfold Read.bytes
  rw [exec_bind_of_ok (exec_get c)]
  split
  . next hroom => exact ⟨rfl, rfl, Nat.le_add_right _ _, fun _ => hroom⟩
  . exact .refl c

theorem staysInside_nat (width : Nat) : StaysInside (Read.nat width) :=
  (staysInside_bytes width).map LittleEndian.decode

theorem staysInside_length (what : String) : StaysInside (Read.length what) := by
  unfold Read.length
  apply staysInside_get.bind
  intro start
  apply (staysInside_nat 8).bind
  intro n
  apply staysInside_get.bind
  intro c
  dsimp only
  split
  . exact staysInside_pure n
  . exact staysInside_throw _

theorem staysInside_string : StaysInside Read.string := by
  unfold Read.string
  apply staysInside_get.bind
  intro c
  apply (staysInside_nat 8).bind
  intro n
  have htext : StaysInside (Read.bytes n >>= fun text =>
      pure (String.ofList (Utf8.decodeLossy text))) :=
    (staysInside_bytes n).bind (fun _ => staysInside_pure _)
  split
  . exact (staysInside_throw _).bind (fun _ => htext)
  . exact htext

theorem staysInside_strings (count : Nat) : StaysInside (Read.strings count) := by
  induction count with
  | zero => exact staysInside_pure []
  | succ count ih =>
    exact staysInside_string.bind (fun s => ih.bind (fun rest => staysInside_pure (s :: rest)))

theorem staysInside_numbers (type : ValueType) (width count : Nat)
    : StaysInside (Read.numbers type width count) := by
  apply (staysInside_bytes (count * width)).bind
  intro data
  split
  . exact staysInside_pure _
  . exact staysInside_pure _

theorem staysInside_array : StaysInside Read.array := by
  unfold Read.array
  apply (staysInside_nat 4).bind
  intro code
  split
  . exact staysInside_throw _
  . next type _ =>
    split
    . exact staysInside_throw _
    . apply (staysInside_length _).bind
      exact fun count => (staysInside_strings count).bind (fun _ => staysInside_pure _)
    . next width dtype _ =>
      apply (staysInside_length _).bind
      exact fun count => (staysInside_numbers type width count).bind
        (fun _ => (staysInside_lift _).bind (fun _ => staysInside_pure _))

theorem staysInside_value (code : Nat) : StaysInside (Read.value code) := by
  unfold Read.value
  split
  . exact staysInside_throw _
  . next type _ =>
    split
    . exact staysInside_array
    . exact staysInside_string.map MetaValue.string
    . next width dtype _ =>
      exact (staysInside_numbers type width 1).bind
        (fun _ => (staysInside_lift _).bind (fun _ => staysInside_pure _))

/--
Bytes that a read takes are no proper beginning of others that it takes.
-/
theorem Reads.eq_of_isPrefix {α : Type} {read : Read α} {bytes bytes' : List UInt8} {limit : Nat}
    {a a' : α} (h : Reads read bytes limit a) (h' : Reads read bytes' limit a')
    (hbegins : bytes' <+: bytes) : bytes' = bytes := by
  obtain ⟨rest, rfl⟩ := hbegins
  have hwhole := h.exec_eq (stands_of_append [] (bytes' ++ rest) [])
  have hpart := h'.exec_eq (stands_of_append [] bytes' (rest ++ []))
  rw [← List.append_assoc, List.append_assoc [] bytes'] at hpart
  have hoffset := congrArg (fun r => r.2.offset) (hwhole.symm.trans hpart)
  have hlength : rest.length = 0 := by
    simp only [List.length_append] at hoffset
    omega
  rw [List.length_eq_zero_iff.1 hlength, List.append_nil]

section

variable {code : Nat} {c c' : Cursor} {v : MetaValue}

theorem reads_of_exec_value (h : exec (Read.value code) c = (.ok v, c'))
    : ∃ w, c.Passes w c' ∧ ∀ limit, c.maxStringLen ≤ limit → Reads (Read.value code) w limit v := by
  obtain ⟨_, _, _, hpasses, _⟩ := exec_value_eq_ok h
  obtain ⟨w, _, hstands, hc', hreads⟩ := delimited_value code c c' v hpasses.1.offset_le h
  exact ⟨w, ⟨hstands, hc'⟩, hreads⟩

/--
No value is read where the data ends before all bytes of one that could be read.
-/
theorem exists_error_of_cut {w : List UInt8} {limit : Nat}
    (h : ∀ l, limit ≤ l → Reads (Read.value code) w l v) (hbegins : c.data.drop c.offset <+: w)
    (hcut : c.data.drop c.offset ≠ w) : ∃ e c', exec (Read.value code) c = (.error e, c') := by
  rcases hexec : exec (Read.value code) c with ⟨e | v', c'⟩
  . exact ⟨e, c', rfl⟩
  . obtain ⟨w', hpasses, h'⟩ := reads_of_exec_value hexec
    have hfront : w' <+: c.data.drop c.offset := by
      rw [← hpasses.1.take_drop]
      exact List.take_prefix _ _
    -- a limit under which both can be read
    have hsame : w' = w := (h _ (Nat.le_max_left limit c.maxStringLen)).eq_of_isPrefix
      (h' _ (Nat.le_max_right limit c.maxStringLen)) (hfront.trans hbegins)
    rw [hsame] at hfront
    exact absurd (hbegins.eq_of_length_le hfront.length_le) hcut

end

/--
Reading a value does not leave the data. A value that is read has taken bytes, and from these, at
any place and whatever follows them, it is read again and nothing else is taken. Where the data ends
before all of them, no value is read.
-/
theorem value_selfDelimiting (code : Nat) (c : Cursor)
    : c.Reaches (exec (Read.value code) c).2 ∧
      ∀ v c', exec (Read.value code) c = (.ok v, c') →
        ∃ w, c.Passes w c' ∧
          (∀ d : Cursor, c.maxStringLen ≤ d.maxStringLen → Stands d.data d.offset w →
            exec (Read.value code) d = (.ok v, { d with offset := d.offset + w.length })) ∧
          ∀ d : Cursor, d.data.drop d.offset <+: w → d.data.drop d.offset ≠ w →
            ∃ e d', exec (Read.value code) d = (.error e, d') := by
  refine ⟨staysInside_value code c, fun v c' h => ?_⟩
  obtain ⟨w, hpasses, hreads⟩ := reads_of_exec_value h
  refine ⟨w, hpasses, ?_, ?_⟩
  . exact fun d hlimit hstands => hreads _ hlimit d rfl hstands
  . exact fun d hbegins hcut => exists_error_of_cut hreads hbegins hcut

/--
The bytes of an array of the text `ab` and an empty one.
-/
def wordAndNothing : List UInt8 :=
  LittleEndian.encode 4 ValueType.string.code ++
    (LittleEndian.encode 8 2 ++ [[0x61, 0x62], []].flatMap storedText)

theorem value_selfDelimiting_wordAndNothing
    : exec (Read.value 9) ⟨[1, 2, 3] ++ wordAndNothing, 3, 2⟩
          = (.ok (.strings ["ab", ""]), ⟨[1, 2, 3] ++ wordAndNothing, 33, 2⟩) ∧
        exec (Read.value 9) ⟨wordAndNothing ++ [0xFF, 0xFF], 0, 5⟩
          = (.ok (.strings ["ab", ""]), ⟨wordAndNothing ++ [0xFF, 0xFF], 30, 5⟩) ∧
        ∃ e d, exec (Read.value 9) ⟨7 :: wordAndNothing.take 29, 1, 2⟩ = (.error e, d) := by
  have hexec : exec (Read.value 9) ⟨[1, 2, 3] ++ wordAndNothing, 3, 2⟩
      = (.ok (.strings ["ab", ""]), ⟨[1, 2, 3] ++ wordAndNothing, 33, 2⟩) := by
    rfl
  obtain ⟨_, hall⟩ := value_selfDelimiting 9 ⟨[1, 2, 3] ++ wordAndNothing, 3, 2⟩
  obtain ⟨w, hpasses, hagain, hcut⟩ := hall _ _ hexec
  have hw : wordAndNothing = w := by
    have hlength : 33 = 3 + w.length := congrArg Cursor.offset hpasses.2
    have htake := hpasses.1.take_drop
    rw [show w.length = 30 by omega] at htake
    exact htake
  subst hw
  refine ⟨hexec, ?_, ?_⟩
  . exact hagain ⟨wordAndNothing ++ [0xFF, 0xFF], 0, 5⟩ (by decide)
      (stands_of_append [] wordAndNothing [0xFF, 0xFF])
  . have hbegins : wordAndNothing.take 29 <+: wordAndNothing :=
      List.take_prefix 29 _
    exact hcut ⟨7 :: wordAndNothing.take 29, 1, 2⟩ hbegins (by decide)

end TensorFiles.Gguf
