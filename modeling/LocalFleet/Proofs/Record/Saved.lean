import LocalFleet.Proofs.Files.Write
import LocalFleet.Proofs.Json.Document
import LocalFleet.Proofs.Result
import LocalFleet.Record

/-! The record of a cluster that was saved is loaded as it was. -/

namespace LocalFleet

namespace Table

/-- Each key once, in increasing order. -/
def Ordered (t : Table) : Prop := t.Pairwise fun a b => Text.le b.1 a.1 = false

theorem insert_of_le_eq_false {t : Table} {key value : String} (h : ∀ a ∈ t, Text.le key a.1 = false) :
    insert key value t = t ++ [(key, value)] := by
  induction t with
  | nil => rfl
  | cons a t ih =>
    obtain ⟨k, v⟩ := a
    have hk : Text.le key k = false := h (k, v) List.mem_cons_self
    have hne : key ≠ k := by
      rintro rfl
      simp [Text.le] at hk
    rw [insert, if_neg hne, hk, if_neg Bool.false_ne_true, ih fun a hmem => h a (List.mem_cons_of_mem _ hmem)]
    rfl

theorem Ordered.ofPairs_eq {t : Table} (h : Ordered t) : ofPairs t = t := by
  have hfold (done rest : Table) (hrest : Ordered (done ++ rest)) :
      rest.foldl (fun t a => insert a.1 a.2 t) done = done ++ rest := by
    induction rest generalizing done with
    | nil => exact (List.append_nil done).symm
    | cons a rest ih =>
      obtain ⟨k, v⟩ := a
      have hbefore : ∀ a ∈ done, Text.le k a.1 = false :=
        fun a ha => (List.pairwise_append.mp hrest).2.2 a ha (k, v) List.mem_cons_self
      have hassoc : done ++ (k, v) :: rest = done ++ [(k, v)] ++ rest := by
        rw [List.append_assoc]
        rfl
      rw [hassoc] at hrest ⊢
      rw [List.foldl_cons]
      show List.foldl _ (insert k v done) rest = _
      rw [insert_of_le_eq_false hbefore]
      exact ih _ hrest
  exact hfold [] t h

end Table

namespace ClusterRecord

open Json (Value)

structure Ordered (r : ClusterRecord) : Prop where
  x : Table.Ordered r.xChainSecondary
  p : Table.Ordered r.pChainSecondary

theorem mapM_map_some {α β : Type} {f : α → β} {g : β → Option α} (h : ∀ a, g (f a) = some a) (as : List α) :
    (as.map f).mapM g = some as := by
  induction as with
  | nil => rfl
  | cons a as ih => simp [h, ih]

theorem string?_str (s : String) : (Value.str s).string? = some s := rfl

theorem nat?_nat (n : Nat) : (Value.nat n).nat? = some n := Decimal.nat?_toString n

theorem word?_nat {bits n : Nat} (h : n < Nat.pow 2 bits) : word? bits (.nat n) = some n := by
  rw [word?, nat?_nat, Option.filter_some, if_pos (decide_eq_true h)]

theorem account?_accountJson (a : Account) : account? (accountJson a) = some a := by
  have hfields : fields ["address", "balance"] (accountJson a) =
      some [some (.str a.address), some (.nat a.balance.toNat)] := rfl
  have hbalance : word? 64 (.nat a.balance.toNat) = some a.balance.toNat := word?_nat a.balance.toNat_lt
  rw [account?, hfields]
  simp only [Option.bind_eq_bind, Option.bind_some, string?_str, hbalance, UInt64.ofNat_toNat]
  rfl

theorem wallet?_walletJson (w : WalletRecord) : wallet? (walletJson w) = some w := by
  have hfields : fields
      ["name", "privateKey", "privateKeyHex", "commonAddress", "xChain", "pChain", "cChain"] (walletJson w) =
      some [some (.str w.name), some (.str w.privateKey), some (.str w.privateKeyHex),
        some (.str w.commonAddress), some (accountJson w.xChain), some (accountJson w.pChain),
        some (accountJson w.cChain)] := rfl
  rw [wallet?, hfields]
  simp only [Option.bind_eq_bind, Option.bind_some, string?_str, account?_accountJson]
  rfl

theorem table?_tableJson {t : Table} (h : Table.Ordered t) : table? (tableJson t) = some t := by
  have hpairs : (t.map fun a => (some a.1, Value.str a.2)).mapM
      (fun (name, v) => do return (← name, ← v.string?)) = some t :=
    mapM_map_some (by intro a; rfl) t
  rw [tableJson, Value.record, List.map_map]
  show ((t.map fun a => (some a.1, Value.str a.2)).mapM
    (fun (name, v) => do return (← name, ← v.string?)) : Option _).bind _ = _
  rw [hpairs]
  exact congrArg some h.ofPairs_eq

theorem fields_toJson (r : ClusterRecord) :
    fields ["uris", "endpoint", "pid", "logsDir", "xChainSecondaryAddresses", "pChainSecondaryAddresses",
      "genesisWallet", "wallets"] r.toJson =
    some [some (.strings r.uris), r.endpoint.map .str, some (.nat r.pid.toNat), some (.str r.logsDir),
      some (tableJson r.xChainSecondary), some (tableJson r.pChainSecondary),
      some (walletJson r.genesisWallet), some (.list (r.wallets.map walletJson))] := by
  rw [toJson]
  cases r.endpoint <;> rfl

theorem optional?_map_str (s : Option String) : optional? (s.map .str) = some s := by
  cases s <;> rfl

theorem ofJson?_toJson {r : ClusterRecord} (h : r.Ordered) : ofJson? r.toJson = some r := by
  rw [ofJson?, fields_toJson]
  show ((r.uris.map Value.str).mapM Value.string?).bind _ = _
  rw [mapM_map_some string?_str]
  show (optional? (r.endpoint.map .str)).bind _ = _
  rw [optional?_map_str]
  show (word? 32 (.nat r.pid.toNat)).bind _ = _
  rw [word?_nat r.pid.toNat_lt]
  show (table? (tableJson r.xChainSecondary)).bind _ = _
  rw [table?_tableJson h.x]
  show (table? (tableJson r.pChainSecondary)).bind _ = _
  rw [table?_tableJson h.p]
  show (wallet? (walletJson r.genesisWallet)).bind _ = _
  rw [wallet?_walletJson]
  show ((r.wallets.map walletJson).mapM wallet?).bind _ = _
  rw [mapM_map_some wallet?_walletJson, UInt32.ofNat_toNat]
  rfl

theorem plain_accountJson (a : Account) : (accountJson a).Plain := by
  refine .record ?_
  simp only [List.forall_mem_cons]
  exact ⟨.str _, .nat _, nofun⟩

theorem plain_walletJson (w : WalletRecord) : (walletJson w).Plain := by
  refine .record ?_
  simp only [List.forall_mem_cons]
  exact ⟨.str _, .str _, .str _, .str _, plain_accountJson _, plain_accountJson _, plain_accountJson _, nofun⟩

theorem plain_tableJson (t : Table) : (tableJson t).Plain := by
  refine .record fun m hm => ?_
  obtain ⟨a, _, rfl⟩ := List.mem_map.mp hm
  exact .str a.2

theorem plain_toJson (r : ClusterRecord) : r.toJson.Plain := by
  have huris : (Value.strings r.uris).Plain := .list fun v hv => by
    obtain ⟨s, _, rfl⟩ := List.mem_map.mp hv
    exact .str s
  have hwallets : (Value.list (r.wallets.map walletJson)).Plain := .list fun v hv => by
    obtain ⟨w, _, rfl⟩ := List.mem_map.mp hv
    exact plain_walletJson w
  have hrest : ∀ m ∈ [("pid", Value.nat r.pid.toNat), ("logsDir", .str r.logsDir),
      ("xChainSecondaryAddresses", tableJson r.xChainSecondary),
      ("pChainSecondaryAddresses", tableJson r.pChainSecondary),
      ("genesisWallet", walletJson r.genesisWallet), ("wallets", .list (r.wallets.map walletJson))],
      m.2.Plain := by
    simp only [List.forall_mem_cons]
    exact ⟨.nat _, .str _, plain_tableJson _, plain_tableJson _, plain_walletJson _, hwallets, nofun⟩
  rw [toJson]
  refine .record (List.forall_mem_cons.mpr ⟨huris, List.forall_mem_append.mpr ⟨?_, hrest⟩⟩)
  cases r.endpoint with
  | none => exact nofun
  | some e => exact List.forall_mem_singleton.mpr (.str e)

/-- The text of a record is read back as the record. -/
theorem ofText?_text {r : ClusterRecord} (h : r.Ordered) : ofText? (Text.bytes r.text) = some r := by
  rw [ofText?, text, Json.parse_pretty (plain_toJson r)]
  exact ofJson?_toJson h

open Files

variable {r loaded : ClusterRecord} {cwd : Place} {path printed : String} {t t' : Tree}

theorem save_eq_ok_iff : r.save cwd path t = (t', .ok ()) ↔
    writeAt t cwd path (Text.bytes r.text) mode = (t', .ok ()) := by
  rw [save]
  obtain ⟨t₁, fault | u⟩ := writeAt t cwd path (Text.bytes r.text) mode <;> simp [Except.mapError]

theorem read_of_save (h : r.save cwd path t = (t', .ok ())) :
    t'.read (place cwd path) = .ok (Text.bytes r.text) :=
  (of_writeAt (save_eq_ok_iff.mp h)).1

theorem load_of_save (hr : r.Ordered) (h : r.save cwd path t = (t', .ok ())) : load cwd path t' = .ok r := by
  simp only [load, read_of_save h, ofText?_text hr]

/-- A record that can be saved is saved, read back and printed. -/
theorem writeAndEcho_of_save (hr : r.Ordered) (h : r.save cwd path t = (t', .ok ())) :
    r.writeAndEcho cwd path t = (t', .ok (r, echo path r)) := by
  simp only [writeAndEcho, h, load_of_save hr h]

theorem save_of_writeAndEcho (h : r.writeAndEcho cwd path t = (t', .ok (loaded, printed))) :
    r.save cwd path t = (t', .ok ()) := by
  rw [writeAndEcho] at h
  rcases hsave : r.save cwd path t with ⟨t₁, e | u⟩
  · simp [hsave] at h
  · rw [hsave] at h
    cases hload : load cwd path t₁ with
    | error e => simp [hload] at h
    | ok loaded =>
      simp only [hload, Prod.mk.injEq] at h
      rw [h.1]

/-- When a record was saved and echoed, whatever the file held before, it is loaded as it was saved, the
file holds its text, and this text is what was printed below a line that names the file. Saving what was
loaded writes the same bytes anywhere, and in the same place it changes nothing at all. -/
theorem writeAndEcho_round_trips (hr : r.Ordered)
    (h : r.writeAndEcho cwd path t = (t', .ok (loaded, printed))) :
    loaded = r ∧ load cwd path t' = .ok r ∧
      t'.read (place cwd path) = .ok (Text.bytes r.text) ∧
      printed = "cat " ++ path ++ "\n" ++ r.text ++ "\n" ∧
      loaded.save cwd path t' = (t', .ok ()) ∧
      ∀ cwd' path' u u', loaded.save cwd' path' u = (u', .ok ()) →
        u'.read (place cwd' path') = t'.read (place cwd path) := by
  have hsave := save_of_writeAndEcho h
  rw [writeAndEcho_of_save hr hsave] at h
  obtain ⟨rfl, rfl⟩ : r = loaded ∧ echo path r = printed := by simpa using h
  have hagain : r.save cwd path t' = (t', .ok ()) :=
    save_eq_ok_iff.mpr (of_writeAt (save_eq_ok_iff.mp hsave)).2
  refine ⟨rfl, load_of_save hr hsave, read_of_save hsave, rfl, hagain, fun cwd' path' u u' hu => ?_⟩
  rw [read_of_save hu, read_of_save hsave]

/-- A record with quotes, a control character, a character beyond sixteen bits and the largest balance. -/
def specimen : ClusterRecord where
  uris := ["http://127.0.0.1:9650"]
  endpoint := some "/ext/bc/\"quoted\\\x07\""
  pid := 0xffffffff
  logsDir := "/tmp/😀"
  xChainSecondary := [("node1", "X-custom1a"), ("node10", "")]
  pChainSecondary := []
  genesisWallet :=
    { name := "genesis", privateKey := "PrivateKey-", privateKeyHex := "", commonAddress := "0x",
      xChain := ⟨"X", 0xffffffffffffffff⟩, pChain := ⟨"P", 0⟩, cChain := ⟨"C", 10⟩ }
  wallets := []

theorem ordered_specimen : specimen.Ordered where
  x := List.pairwise_pair.mpr (by decide)
  p := .nil

theorem writeAndEcho_round_trips_specimen :
    let before : Tree := ⟨[(["out.json"], .file [1, 2, 3] 0o644)]⟩
    ∃ t', specimen.writeAndEcho [] "out.json" before = (t', .ok (specimen, echo "out.json" specimen)) ∧
      load [] "out.json" t' = .ok specimen := by
  intro before
  have hsave : specimen.save [] "out.json" before =
      (before.put ["out.json"] (.file (Text.bytes specimen.text) mode), .ok ()) :=
    save_eq_ok_iff.mpr (writeAt_of_writable (by decide) (by decide) (.inr ⟨[1, 2, 3], 0o644, rfl⟩))
  have hecho := writeAndEcho_of_save ordered_specimen hsave
  exact ⟨_, hecho, (writeAndEcho_round_trips ordered_specimen hecho).2.1⟩

end ClusterRecord

end LocalFleet
