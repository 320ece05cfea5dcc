import LocalFleet.Codec
import LocalFleet.Proofs.Result

/-! Reading what was written: wherever it stands in a buffer, a program reads it as the value that was
written and goes on behind it. One rule for each way to build a program; what is read so is uniquely
decodable. -/

namespace LocalFleet

namespace BigEndian

theorem decode_lt (bytes : Bytes) : decode bytes < 256 ^ bytes.length := by
  have hmod : decode bytes % Nat.pow 256 bytes.length = decode bytes := by
    rw [← decode_encode, encode_decode]
  rw [← hmod]
  exact Nat.mod_lt _ (Nat.pow_pos (by decide))

theorem decode_encode_of_lt {width n : Nat} (h : n < 256 ^ width) : decode (encode width n) = n := by
  rw [decode_encode]
  exact Nat.mod_eq_of_lt h

end BigEndian

namespace Codec

theorem ofNat_decode_u16 (v : UInt16) : UInt16.ofNat (BigEndian.decode (u16 v)) = v := by
  rw [u16, BigEndian.decode_encode_of_lt v.toNat_lt, UInt16.ofNat_toNat]

theorem ofNat_decode_u32 (v : UInt32) : UInt32.ofNat (BigEndian.decode (u32 v)) = v := by
  rw [u32, BigEndian.decode_encode_of_lt v.toNat_lt, UInt32.ofNat_toNat]

theorem ofNat_decode_u64 (v : UInt64) : UInt64.ofNat (BigEndian.decode (u64 v)) = v := by
  rw [u64, BigEndian.decode_encode_of_lt v.toNat_lt, UInt64.ofNat_toNat]

namespace Read

variable {ε α β : Type}

theorem run_bind (short : Nat → ε) (m : Read ε α) (f : α → Read ε β) (r : Reader) :
    (m >>= f).run short r = (m.run short r >>= fun (a, r') => (f a).run short r') := by
  induction m generalizing r with
  | done a => rfl
  | refuse e => rfl
  | take n rest ih =>
    show (take n fun o => rest o >>= f).run short r = _
    simp only [run]
    cases r.next? n with
    | none => rfl
    | some next => exact ih next.1 next.2

/-- Wherever `written` stands in a buffer, the program reads it as `x` and goes on behind it. -/
def Reads (program : Read ε α) (written : Bytes) (x : α) : Prop :=
  ∀ short before after, program.run short ⟨before ++ written ++ after, before.length⟩ =
    .ok (x, ⟨before ++ written ++ after, (before ++ written).length⟩)

theorem reads_pure (x : α) : Reads (pure x : Read ε α) [] x := by
  intro short before after
  simp only [List.append_nil]
  rfl

theorem Reads.bind {m : Read ε α} {f : α → Read ε β} {v w : Bytes} {x : α} {y : β}
    (hm : Reads m v x) (hf : Reads (f x) w y) : Reads (m >>= f) (v ++ w) y := by
  intro short before after
  have hfirst := hm short before (w ++ after)
  have hthen := hf short (before ++ v) after
  simp only [List.append_assoc] at hfirst hthen ⊢
  rw [run_bind, hfirst]
  exact hthen

theorem Reads.map {m : Read ε α} {v : Bytes} {x : α} (hm : Reads m v x) (g : α → β) :
    Reads (m >>= fun a => pure (g a)) v (g x) := by
  simpa using hm.bind (f := fun a => pure (g a)) (reads_pure (g x))

theorem reads_octets {n : Nat} (o : Octets n) : Reads (octets n : Read ε (Octets n)) o.val o := by
  intro short before after
  simp [octets, run, Reader.next?, o.property]

theorem reads_word {n : Nat} {written : Bytes} (h : written.length = n) {value : Octets n → α} {x : α}
    (hvalue : value ⟨written, h⟩ = x) :
    Reads (octets n >>= fun o => pure (value o) : Read ε α) written x := by
  have hbytes : Reads (octets n : Read ε _) written ⟨written, h⟩ := reads_octets ⟨written, h⟩
  rw [← hvalue]
  exact hbytes.map value

theorem reads_u16 (v : UInt16) : Reads (u16 : Read ε UInt16) (Codec.u16 v) v :=
  reads_word (length_u16 v) (ofNat_decode_u16 v)

theorem reads_u32 (v : UInt32) : Reads (u32 : Read ε UInt32) (Codec.u32 v) v :=
  reads_word (length_u32 v) (ofNat_decode_u32 v)

theorem reads_u64 (v : UInt64) : Reads (u64 : Read ε UInt64) (Codec.u64 v) v :=
  reads_word (length_u64 v) (ofNat_decode_u64 v)

section

variable {γ : Type} {program : Read ε α} {write : γ → Bytes} {value : γ → α}

theorem reads_times {xs : List γ} (h : ∀ x ∈ xs, Reads program (write x) (value x)) :
    Reads (times program xs.length) (xs.flatMap write) (xs.map value) := by
  induction xs with
  | nil => exact reads_pure []
  | cons x xs ih =>
    have hrest := ih fun y hy => h y (List.mem_cons_of_mem _ hy)
    exact (h x List.mem_cons_self).bind (hrest.map (value x :: ·))

theorem reads_list {xs : List γ} (h : ∀ x ∈ xs, Reads program (write x) (value x))
    (hcount : xs.length < 2 ^ 32) : Reads (list program) (Codec.list write xs) (xs.map value) := by
  have hn : (UInt32.ofNat xs.length).toNat = xs.length := UInt32.toNat_ofNat_of_lt' hcount
  refine (reads_u32 (UInt32.ofNat xs.length)).bind ?_
  rw [hn]
  exact reads_times h

end

theorem reads_list_self {program : Read ε α} {write : α → Bytes} {xs : List α}
    (h : ∀ x ∈ xs, Reads program (write x) x) (hcount : xs.length < 2 ^ 32) :
    Reads (list program) (Codec.list write xs) xs := by
  have hlist : Reads (list program) (Codec.list write xs) (xs.map fun x => x) := reads_list h hcount
  rwa [List.map_id'] at hlist

/-- What one program reads is uniquely decodable, whatever follows. -/
theorem Reads.append_inj {program : Read Unit α} {v w s t : Bytes} {x y : α}
    (hx : Reads program v x) (hy : Reads program w y) (h : v ++ s = w ++ t) : x = y ∧ s = t := by
  have hv := hx (fun _ => ()) [] s
  have hw := hy (fun _ => ()) [] t
  simp only [List.nil_append] at hv hw
  rw [h, hw] at hv
  obtain ⟨hxy, hr⟩ := Prod.mk.inj (Except.ok.inj hv)
  exact ⟨hxy.symm, (List.append_inj h (Reader.mk.inj hr).2.symm).2⟩

end Read

end Codec

end LocalFleet
