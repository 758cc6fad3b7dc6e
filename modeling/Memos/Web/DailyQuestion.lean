/-
Which question a day shows.

The year and the seed of the site shuffle the list of the questions into an order, and the
days go through it; when there are fewer questions than days, each further round has an
order of its own.  The last day of a leap year draws a question at random.

The generator is a function of its seed and of how many numbers it has drawn.  Its numbers
are rational, and so are the products: a generator that draws multiples of 2⁻³² has exact
products with any number of questions below 2²¹.
-/
import Memos.Lib.Calendar
import Mathlib.Data.Rat.Floor

namespace Memos.Web

open Calendar

/-! ### Random numbers -/

/-- FNV-1a over the UTF-8 bytes. -/
def hashText (text : String) : UInt32 :=
  text.toUTF8.toList.foldl (fun hash byte => (hash ^^^ byte.toUInt32) * 0x01000193) 0x811c9dc5

/-- One step of mulberry32: the next state, and what it draws. -/
def mulberry (state : UInt32) : UInt32 × UInt32 :=
  let state := state + 0x6d2b79f5
  let t := (state ^^^ (state >>> 15)) * (1 ||| state)
  let t := (t + (t ^^^ (t >>> 7)) * (61 ||| t)) ^^^ t
  (state, t ^^^ (t >>> 14))

/-- The generators: by their seed, the numbers they draw one after the other. -/
abbrev Generator := UInt32 → Nat → Rat

def seededRandom : Generator := fun seed drawn =>
  (mulberry ((fun state => (mulberry state).1)^[drawn] seed)).2.toNat / 4294967296

/-! ### The order of a year -/

/-- `Math.floor(random() * n)`. -/
def draw (random : Nat → Rat) (drawn n : Nat) : Int := ⌊random drawn * n⌋

/-- `[order[i], order[j]] = [order[j], order[i]]`.  An index outside the list would put
`undefined` into it. -/
def exchange (order : Array Nat) (i : Nat) (j : Int) : Option (Array Nat) :=
  if 0 ≤ j then
    if h : i < order.size ∧ j.toNat < order.size then some (order.swap i j.toNat h.1 h.2) else none
  else none

/-- The loop from the index `i` on, down to the index 1. -/
def shuffle (random : Nat → Rat) : Nat → Nat → Array Nat → Option (Array Nat)
  | 0, _, order => some order
  | i + 1, drawn, order => do
      let order ← exchange order (i + 1) (draw random drawn (i + 2))
      shuffle random i (drawn + 1) order

def yearOrder (generator : Generator) (count : Nat) (year : Int) (seed : String) (round : Int) :
    Option (Array Nat) :=
  let key := if round = 0 then s!"{year}:{seed}" else s!"{year}:{seed}:round:{round}"
  let random := generator (hashText key)
  shuffle random (count - 1) 0 (Array.range count)

/-! ### The question of a day -/

/-- The year that `Date.UTC` takes a number for. -/
def utcYear (year : Int) : Int := if 0 ≤ year ∧ year ≤ 99 then 1900 + year else year

/-- The local day of the year, 1 for 1 January. -/
def dayOfYear (date : Date) : Int :=
  days ⟨utcYear date.year, date.month, date.day⟩ - days ⟨utcYear date.year, 1, 1⟩ + 1

def questionIndexFor (generator : Generator) (date : Date) (count : Nat) (seed : String) :
    Option Nat :=
  if count ≤ 0 then none
  else do
    let year := date.year
    let day := dayOfYear date
    let round := if day ≤ 365 then (day - 1) / count else 0
    let order ← yearOrder generator count year seed round
    if day ≤ 365 then order[((day - 1) % count).toNat]?
    else order[(draw (generator (hashText s!"{year}:{seed}:366")) 0 count).toNat]?

end Memos.Web
