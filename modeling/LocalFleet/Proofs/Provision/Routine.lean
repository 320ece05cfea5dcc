import LocalFleet.Proofs.Asking
import LocalFleet.Provision.All

/-! What provisioning asks: it calls nodes, waits for what they show, and looks after every part whether
it may go on. It neither enters a phase nor writes nor reports anything, and nothing of it but the
validators can make a number leave its range. -/

namespace LocalFleet

/-- Questions of the parts of provisioning. -/
def Question.Routine : Question → Prop
  | .call .. | .await .. | .clock | .readFile _ | .newWallets .. => True
  | .checkpoint after => after ≠ "provisioning"
  | _ => False

namespace Provisioner

open Stage

variable {σ : Type} {R : Prop} (p : Provisioner)

theorem confirm_asks (what : String) (node : NodeSpec) (c : Call) (enough : c.Answer → Bool) :
    Asks Question.Routine R (p.confirm what node c enough : Stage σ Unit) :=
  (asks_await trivial).bind fun _ => asks_pure ()

theorem readBalances_asks : Asks Question.Routine R p.readBalances :=
  asks_forM (fun _ => asks_get.bind fun _ => (asks_lift _).bind fun _ => (asks_call trivial).bind fun _ =>
    asks_modify _) _

theorem confirmAddresses_asks : Asks Question.Routine R p.confirmAddresses :=
  asks_forM (fun _ => asks_forM (fun _ => asks_get.bind fun _ => (asks_lift _).bind fun _ =>
    confirm_asks _ _ _ _ _) _) _

theorem importGenesis_asks : Asks Question.Routine R p.importGenesis :=
  asks_forM (fun _ => asks_forM (fun _ => asks_get.bind fun _ => (asks_call trivial).bind fun _ =>
    asks_ite ((asks_throw _).bind fun _ => asks_modify _) (asks_modify _)) _) _

theorem importKey_asks (node : NodeSpec) (chain : Chain) :
    Asks Question.Routine R (p.importKey node chain) := by
  refine asks_get.bind fun wallet => (asks_call trivial).bind fun address => ?_
  cases wallet.knownAddress chain with
  | none => exact asks_modify _
  | some known => exact asks_ite (asks_throw _) (asks_pure ())

theorem createUsers_asks : Asks Question.Routine R p.createUsers :=
  asks_forM (fun _ => asks_call trivial) _

theorem fundFromGenesis_asks : Asks Question.Routine R p.fundFromGenesis :=
  (asks_lift _).bind fun _ => (asks_on ((importGenesis_asks p).bind fun _ =>
    (confirmAddresses_asks p).bind fun _ => readBalances_asks p)).bind fun _ =>
    (asks_lift _).bind fun _ => asks_modify _

theorem createSecondaryAddresses_asks : Asks Question.Routine R p.createSecondaryAddresses :=
  asks_forM (fun _ => asks_forM (fun _ => (asks_call trivial).bind fun _ =>
    (confirm_asks _ _ _ _ _).bind fun _ => asks_modify _) _) _

theorem createWallets_asks : Asks Question.Routine R p.createWallets :=
  (asks_ask (q := .newWallets _ _) trivial).bind fun _ =>
    (asks_each (asks_forM (fun _ => asks_forM (importKey_asks p _) _) _) _).bind fun _ =>
    (asks_lift _).bind fun _ => (asks_each (confirmAddresses_asks p) _).bind fun _ =>
    (asks_lift _).bind fun _ => (asks_each (readBalances_asks p) _).bind fun _ =>
    (asks_lift _).bind fun _ => asks_modify _

theorem refreshBalances_asks : Asks Question.Routine R p.refreshBalances :=
  asks_get.bind fun _ => (asks_lift _).bind fun _ => (asks_on (readBalances_asks p)).bind fun _ =>
    (asks_lift _).bind fun _ => (asks_modify _).bind fun _ => asks_get.bind fun _ =>
    (asks_each (readBalances_asks p) _).bind fun _ => (asks_modify _).bind fun _ => asks_lift _

theorem transferToWallet_asks : Asks Question.Routine R p.transferToWallet :=
  asks_get.bind fun _ => (asks_lift _).bind fun _ => (asks_lift _).bind fun _ =>
    (asks_lift _).bind fun _ => (asks_lift _).bind fun _ => (asks_call trivial).bind fun _ =>
    confirm_asks _ _ _ _ _

theorem issue_asks (what : String) (chain : Chain) (tx : UnsignedTx) (key : SecretKey) :
    Asks Question.Routine R (p.issue what chain tx key) :=
  (asks_lift _).bind fun _ => (asks_call trivial).bind fun _ =>
    asks_forM (fun _ => confirm_asks _ _ _ _ _) _

theorem exportImport_asks : Asks Question.Routine R p.exportImport :=
  (asks_lift _).bind fun _ => asks_get.bind fun _ => (asks_lift _).bind fun _ =>
    (asks_lift _).bind fun _ => (asks_lift _).bind fun _ => (asks_lift _).bind fun _ =>
    (asks_ask (q := .clock) trivial).bind fun _ => (asks_call trivial).bind fun _ =>
    (asks_lift _).bind fun _ => (issue_asks p _ _ _ _).bind fun _ => (asks_await trivial).bind fun _ =>
    (asks_lift _).bind fun _ => issue_asks p _ _ _ _

theorem controlAddress_asks : Asks Question.Routine R controlAddress :=
  asks_get.bind fun _ => (asks_lift _).bind fun _ => asks_lift _

theorem createSubnet_asks : Asks Question.Routine R p.createSubnet :=
  controlAddress_asks.bind fun _ => (asks_call trivial).bind fun _ => (asks_lift _).bind fun _ =>
    (asks_forM (fun _ => (confirm_asks _ _ _ _ _).bind fun _ => confirm_asks _ _ _ _ _) _).bind fun _ =>
    asks_modify _

theorem addSubnetValidators_asks (h : R) : Asks Question.Routine R p.addSubnetValidators := by
  refine asks_get.bind fun _ => (asks_lift _).bind fun _ => controlAddress_asks.bind fun _ =>
    asks_forM (fun _ => (asks_ask (q := .clock) trivial).bind fun now => ?_) _
  cases p.validationTimes now with
  | none => exact asks_overflow h
  | some times => exact (asks_call trivial).bind fun _ => confirm_asks _ _ _ _ _

theorem createBlockchain_asks : Asks Question.Routine R p.createBlockchain :=
  asks_get.bind fun _ => (asks_lift _).bind fun _ => controlAddress_asks.bind fun _ =>
    ((asks_lift _).bind fun _ => (asks_ask (q := .readFile _) trivial).bind fun _ =>
      asks_lift _).bind fun _ =>
    (asks_call trivial).bind fun _ => (asks_forM (fun _ => (confirm_asks _ _ _ _ _).bind fun _ =>
      (confirm_asks _ _ _ _ _).bind fun _ => confirm_asks _ _ _ _ _) _).bind fun _ => asks_modify _

theorem awaitBootstrap_asks : Asks Question.Routine R p.awaitBootstrap :=
  asks_get.bind fun _ => (asks_lift _).bind fun _ => asks_forM (fun _ => confirm_asks _ _ _ _ _) _

theorem routine_checkpoint_asks {after : String} (h : after ≠ "provisioning") :
    Asks Question.Routine R (Stage.checkpoint after : Stage σ Unit) := asks_checkpoint h

theorem funding_asks : Asks Question.Routine R p.funding :=
  (routine_checkpoint_asks (by decide)).bind fun _ => (createUsers_asks p).bind fun _ =>
    (routine_checkpoint_asks (by decide)).bind fun _ => (fundFromGenesis_asks p).bind fun _ =>
    (routine_checkpoint_asks (by decide)).bind fun _ => (createSecondaryAddresses_asks p).bind fun _ =>
    (routine_checkpoint_asks (by decide)).bind fun _ => (createWallets_asks p).bind fun _ =>
    (routine_checkpoint_asks (by decide)).bind fun _ => (transferToWallet_asks p).bind fun _ =>
    (routine_checkpoint_asks (by decide)).bind fun _ => (exportImport_asks p).bind fun _ =>
    refreshBalances_asks p

theorem subnetwork_asks (h : R) : Asks Question.Routine R p.subnetwork :=
  (routine_checkpoint_asks (by decide)).bind fun _ => (createSubnet_asks p).bind fun _ =>
    (routine_checkpoint_asks (by decide)).bind fun _ => (addSubnetValidators_asks p h).bind fun _ =>
    (routine_checkpoint_asks (by decide)).bind fun _ => (createBlockchain_asks p).bind fun _ =>
    (routine_checkpoint_asks (by decide)).bind fun _ => awaitBootstrap_asks p

theorem all_asks (h : R) : Asks Question.Routine R p.all :=
  (funding_asks p).bind fun _ => asks_ite (subnetwork_asks p h) (asks_pure ())

end Provisioner

end LocalFleet
