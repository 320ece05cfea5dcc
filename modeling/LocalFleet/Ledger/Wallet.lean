import LocalFleet.Error
import LocalFleet.Ledger.SecretKey

/-! A key known to every node, with its address and its last observed balance on each chain. -/

namespace LocalFleet

structure PerChain (α : Type) where
  x : α
  p : α
  c : α
  deriving DecidableEq, Repr

namespace PerChain

variable {α : Type}

def get (v : PerChain α) : Chain → α
  | .x => v.x
  | .p => v.p
  | .c => v.c

def set (v : PerChain α) (chain : Chain) (a : α) : PerChain α :=
  match chain with
  | .x => { v with x := a }
  | .p => { v with p := a }
  | .c => { v with c := a }

theorem get_set (v : PerChain α) (chain other : Chain) (a : α) :
    (v.set chain a).get other = if other = chain then a else v.get other := by
  cases chain <;> cases other <;> rfl

@[simp] theorem get_set_same (v : PerChain α) (chain : Chain) (a : α) :
    (v.set chain a).get chain = a := by cases chain <;> rfl

end PerChain

structure Wallet where
  name : String
  key : SecretKey
  addresses : PerChain (Option String)
  balances : PerChain (Option Amount)
  deriving DecidableEq, Repr

namespace Wallet

def new (name : String) (key : SecretKey) : Wallet :=
  ⟨name, key, ⟨none, none, none⟩, ⟨none, none, none⟩⟩

def knownAddress (w : Wallet) (chain : Chain) : Option String := w.addresses.get chain

/-- The address on a chain, once the key has been imported there. -/
def address (w : Wallet) (chain : Chain) : Result String :=
  match w.knownAddress chain with
  | some a => .ok a
  | none => .error (.provision (.missing "wallet address"))

def setAddress (w : Wallet) (chain : Chain) (address : String) : Wallet :=
  { w with addresses := w.addresses.set chain (some address) }

/-- The last observed balance; zero before any. -/
def balance (w : Wallet) (chain : Chain) : Amount := (w.balances.get chain).getD 0

def setBalance (w : Wallet) (chain : Chain) (amount : Amount) : Wallet :=
  { w with balances := w.balances.set chain (some amount) }

def entries {α : Type} (table : PerChain (Option α)) (write : α → String) : String :=
  ", ".intercalate (Chain.all.filterMap fun chain =>
    (table.get chain).map fun a => chain.letter ++ ": " ++ write a)

def shown (w : Wallet) : String :=
  "Wallet \x7b name: " ++ Quoted.text w.name ++ ", key: " ++ SecretKey.shown
    ++ ", addresses: \x7b" ++ entries w.addresses Quoted.text
    ++ "\x7d, balances: \x7b" ++ entries w.balances toString ++ "\x7d \x7d"

end Wallet

end LocalFleet
