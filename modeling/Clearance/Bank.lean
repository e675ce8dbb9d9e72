/-
# `Bank` — a bank that decides payments one at a time

What a service that takes deposits and decides payments is for, said without messages,
consumers or transactions: balances, the deposits and payments that were made, what was
answered under which key, and what was announced.

    request    a payment is entered; it is pending
    deposit    the money is there at once, and the new balance is the answer
    decide     a pending payment within the limit that the balance covers is authorized,
               and the money is gone; any other fails
    recall     the receipt that is kept under a key, if there is one

Every action has its answer with it, and is impossible with any other answer.
-/
import Mathlib

namespace Bank

/-- Money of an account. -/
structure Sum (α κ : Type) where
  account : α
  currency : κ
  amount : Int
  deriving DecidableEq

inductive Status where
  | pending | authorized | failed
  deriving DecidableEq

/-- What was made of a request. -/
inductive Record (α κ : Type) where
  | deposit (money : Sum α κ)
  | payment (money : Sum α κ) (status : Status)
  deriving DecidableEq

/-- What is announced. -/
inductive Notice (ι : Type) where
  | requested (id : ι)
  | deposited (id : ι)
  | authorized (id : ι)
  | failed (id : ι)
  deriving DecidableEq

inductive Action (ι α κ τ ρ : Type) where
  | request (id : ι) (money : Sum α κ) (key : τ) (receipt : ρ)
  | deposit (id : ι) (money : Sum α κ) (key : τ) (receipt : ρ) (balance : Int)
  | decide (id : ι)
  | recall (key : τ) (answer : Option ρ)

/-- What is answered to the request that was made under a key. -/
def Action.given {ι α κ τ ρ : Type} : Action ι α κ τ ρ → Option (τ × ρ)
  | .request _ _ key receipt | .deposit _ _ key receipt _ | .recall key (some receipt) =>
      some (key, receipt)
  | .decide _ | .recall _ none => none

@[ext] structure State (ι α κ τ ρ : Type) where
  balance : α → κ → Int
  record : ι → Option (Record α κ)
  receipt : τ → Option ρ
  notices : List (Notice ι)

/-- Nothing has happened. -/
def State.empty {ι α κ τ ρ : Type} : State ι α κ τ ρ where
  balance _ _ := 0
  record _ := none
  receipt _ := none
  notices := []

section

variable {ι α κ τ ρ : Type} [DecidableEq ι] [DecidableEq α] [DecidableEq κ] [DecidableEq τ]
  [DecidableEq ρ]

/-- What `amount` more on the account makes of the balances. -/
def State.moved (b : State ι α κ τ ρ) (money : Sum α κ) (amount : Int) : α → κ → Int :=
  fun a c => b.balance a c + if money.account = a ∧ money.currency = c then amount else 0

def State.step (limit : Int) (b : State ι α κ τ ρ) :
    Action ι α κ τ ρ → Option (State ι α κ τ ρ)
  | .request id money key receipt =>
      if b.record id = none ∧ b.receipt key = none ∧ 0 < money.amount then
        some
          { b with
            record := Function.update b.record id (some (.payment money .pending))
            receipt := Function.update b.receipt key (some receipt)
            notices := b.notices ++ [.requested id] }
      else none
  | .deposit id money key receipt balance =>
      if b.record id = none ∧ b.receipt key = none ∧ 0 < money.amount ∧
          balance = b.balance money.account money.currency + money.amount then
        some
          { balance := b.moved money money.amount
            record := Function.update b.record id (some (.deposit money))
            receipt := Function.update b.receipt key (some receipt)
            notices := b.notices ++ [.deposited id] }
      else none
  | .decide id =>
      match b.record id with
      | some (.payment money .pending) =>
          if money.amount ≤ limit ∧ money.amount ≤ b.balance money.account money.currency then
            some
              { b with
                balance := b.moved money (-money.amount)
                record := Function.update b.record id (some (.payment money .authorized))
                notices := b.notices ++ [.authorized id] }
          else
            some
              { b with
                record := Function.update b.record id (some (.payment money .failed))
                notices := b.notices ++ [.failed id] }
      | _ => none
  | .recall key answer => if answer = b.receipt key then some b else none

end

end Bank
