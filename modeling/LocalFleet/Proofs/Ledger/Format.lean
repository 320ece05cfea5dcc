import LocalFleet.Ledger.SignedTx
import LocalFleet.Proofs.Codec.Reads

/-! The format of transactions is uniquely decodable. Every list is written after its count, so what is
written for a transaction tells it apart from all others and from whatever follows. -/

namespace LocalFleet

open Codec Codec.Read

namespace Scan

variable {α : Type} {scan : Scan α} {v : Bytes} {x : α}

theorem reads_expect (n : UInt32) : Reads (expect n) (Codec.u32 n) () := by
  have hmatch : Reads (if n ≠ n then refuse () else pure () : Scan Unit) [] () := by
    simpa using reads_pure ()
  have h := (reads_u32 n).bind (f := fun found => if found ≠ n then refuse () else pure ()) hmatch
  rwa [List.append_nil] at h

theorem front?_of_reads (h : Reads scan v x) (s : Bytes) : scan.front? (v ++ s) = some (x, v.length) := by
  have hrun := h (fun _ => ()) [] s
  simp only [List.nil_append, List.length_nil] at hrun
  simp [front?, Reader.start, hrun]

theorem whole?_of_reads (h : Reads scan v x) : scan.whole? v = some x := by
  have hfront := front?_of_reads h []
  rw [List.append_nil] at hfront
  simp [whole?, hfront]

end Scan

theorem TransferOutput.reads_write {o : TransferOutput} (h : o.owners.length < 2 ^ 32) :
    Reads TransferOutput.read o.write o := by
  have howners : Reads (list (octets 20) : Scan _) (Codec.list Subtype.val o.owners) o.owners :=
    reads_list_self (fun owner _ => reads_octets owner) h
  simp only [write, List.append_assoc]
  refine (reads_octets o.assetId).bind ?_
  refine (Scan.reads_expect _).bind ?_
  refine (reads_u64 o.amount).bind ?_
  refine (reads_u64 o.locktime).bind ?_
  refine (reads_u32 o.threshold).bind ?_
  exact howners.map _

theorem TransferInput.reads_write {i : TransferInput} (h : i.signers.length < 2 ^ 32) :
    Reads TransferInput.read i.write i := by
  have hsigners : Reads (list u32 : Scan _) (Codec.list Codec.u32 i.signers) i.signers :=
    reads_list_self (fun signer _ => reads_u32 signer) h
  simp only [write, List.append_assoc]
  refine (reads_octets i.txId).bind ?_
  refine (reads_u32 i.outputIndex).bind ?_
  refine (reads_octets i.assetId).bind ?_
  refine (Scan.reads_expect _).bind ?_
  refine (reads_u64 i.amount).bind ?_
  exact hsigners.map _

namespace UnsignedTx

def exported : UnsignedTx → List TransferOutput
  | exportTo _ _ exported => exported
  | importFrom .. => []

def imported : UnsignedTx → List TransferInput
  | exportTo .. => []
  | importFrom _ _ imported => imported

/-- Every list is short enough for the thirty-two bits of its count. -/
structure Counted (tx : UnsignedTx) : Prop where
  outputs : tx.base.outputs.length < 2 ^ 32
  inputs : tx.base.inputs.length < 2 ^ 32
  memo : tx.base.memo.length < 2 ^ 32
  exported : tx.exported.length < 2 ^ 32
  imported : tx.imported.length < 2 ^ 32
  owners : ∀ o ∈ tx.base.outputs ++ tx.exported, o.owners.length < 2 ^ 32
  signers : ∀ i ∈ tx.base.inputs ++ tx.imported, i.signers.length < 2 ^ 32

theorem Counted.reads_outputs {tx : UnsignedTx} (h : tx.Counted) :
    Reads (list TransferOutput.read) (Codec.list TransferOutput.write tx.base.outputs) tx.base.outputs :=
  reads_list_self
    (fun o ho => TransferOutput.reads_write (h.owners o (List.mem_append_left _ ho))) h.outputs

theorem Counted.reads_inputs {tx : UnsignedTx} (h : tx.Counted) :
    Reads (list TransferInput.read) (Codec.list TransferInput.write tx.base.inputs) tx.base.inputs :=
  reads_list_self
    (fun i hi => TransferInput.reads_write (h.signers i (List.mem_append_left _ hi))) h.inputs

theorem Counted.reads_exported {tx : UnsignedTx} (h : tx.Counted) :
    Reads (list TransferOutput.read) (Codec.list TransferOutput.write tx.exported) tx.exported :=
  reads_list_self
    (fun o ho => TransferOutput.reads_write (h.owners o (List.mem_append_right _ ho))) h.exported

theorem Counted.reads_imported {tx : UnsignedTx} (h : tx.Counted) :
    Reads (list TransferInput.read) (Codec.list TransferInput.write tx.imported) tx.imported :=
  reads_list_self
    (fun i hi => TransferInput.reads_write (h.signers i (List.mem_append_right _ hi))) h.imported

theorem Counted.reads_tail {tx : UnsignedTx} (h : tx.Counted) :
    Reads (if tx.typeNumber = 4 then do
        return .exportTo tx.base tx.otherChain (← list TransferOutput.read)
      else if tx.typeNumber = 17 then do
        return .importFrom tx.base tx.otherChain (← list TransferInput.read)
      else refuse () : Scan UnsignedTx) tx.tail tx := by
  cases tx with
  | exportTo base other exported => exact h.reads_exported.map (exportTo base other)
  | importFrom base other imported => exact h.reads_imported.map (importFrom base other)

/-- The unsigned part is read as the transaction that wrote it. -/
theorem Counted.reads_bytes {tx : UnsignedTx} (h : tx.Counted) : Reads UnsignedTx.read tx.bytes tx := by
  have hlength : (UInt32.ofNat tx.base.memo.length).toNat = tx.base.memo.length :=
    UInt32.toNat_ofNat_of_lt' h.memo
  have hmemo : Reads (octets (UInt32.ofNat tx.base.memo.length).toNat : Scan _) tx.base.memo
      ⟨tx.base.memo, hlength.symm⟩ := reads_octets ⟨tx.base.memo, hlength.symm⟩
  have hwritten : Codec.list (fun b => [b]) tx.base.memo = count tx.base.memo.length ++ tx.base.memo := by
    rw [Codec.list, List.flatMap_singleton']
  simp only [bytes, hwritten, List.append_assoc]
  refine (reads_u16 version).bind ?_
  simp only [ne_eq, not_true_eq_false, if_false]
  refine (reads_u32 tx.typeNumber).bind ?_
  refine (reads_u32 tx.base.networkId).bind ?_
  refine (reads_octets tx.base.blockchainId).bind ?_
  refine h.reads_outputs.bind ?_
  refine h.reads_inputs.bind ?_
  refine (reads_u32 (UInt32.ofNat tx.base.memo.length)).bind ?_
  refine hmemo.bind ?_
  exact (reads_octets tx.otherChain).bind h.reads_tail

/-- What is written for a transaction tells it from all others, whatever follows, and where it ends: so
two transactions never have the same bytes to sign, and the unsigned part of a signed transaction is
found in front of the credentials. -/
theorem bytes_append_eq_iff {a b : UnsignedTx} (ha : a.Counted) (hb : b.Counted) (s t : Bytes) :
    (a.bytes ++ s = b.bytes ++ t ↔ a = b ∧ s = t) ∧ (a.bytes = b.bytes ↔ a = b) ∧
      UnsignedTx.read.front? (a.bytes ++ s) = some (a, a.bytes.length) := by
  have hinj : ∀ {s t}, a.bytes ++ s = b.bytes ++ t → a = b ∧ s = t := fun h =>
    ha.reads_bytes.append_inj hb.reads_bytes h
  refine ⟨⟨hinj, ?_⟩, ⟨fun h => ?_, fun h => h ▸ rfl⟩, Scan.front?_of_reads ha.reads_bytes s⟩
  · rintro ⟨rfl, rfl⟩
    rfl
  · exact (hinj (s := []) (t := []) (by simpa using h)).1

def specimen : UnsignedTx :=
  .importFrom
    { networkId := 1337
      blockchainId := Id.platform
      outputs := [.ownedBy (Octets.replicate 32 1) 5 (Octets.replicate 20 4)]
      inputs := [⟨Octets.replicate 32 2, 0, Octets.replicate 32 1, 2, [0, 1]⟩]
      memo := [0x68, 0x69, 0x21] }
    (Octets.replicate 32 3) [⟨Octets.replicate 32 2, 1, Octets.replicate 32 1, 4, [0]⟩]

theorem counted_specimen : specimen.Counted := by
  constructor <;> decide

def specimenAtHome : UnsignedTx :=
  .importFrom { specimen.base with inputs := specimen.base.inputs ++ specimen.imported }
    specimen.otherChain []

theorem bytes_specimen_ne : specimen.Counted ∧ specimenAtHome.Counted ∧
    specimen.bytes ++ [0] ≠ specimenAtHome.bytes ++ [0, 1] ∧ specimen.bytes ≠ specimenAtHome.bytes ∧
    UnsignedTx.read.front? (specimen.bytes ++ [0]) = some (specimen, specimen.bytes.length) := by
  have hhome : specimenAtHome.Counted := by constructor <;> decide
  have hne : specimen ≠ specimenAtHome := by decide
  obtain ⟨happend, hbytes, hfront⟩ :=
    bytes_append_eq_iff counted_specimen hhome [0] [0, 1]
  exact ⟨counted_specimen, hhome, fun h => hne (happend.1 h).1, fun h => hne (hbytes.1 h), hfront⟩

end UnsignedTx

end LocalFleet
