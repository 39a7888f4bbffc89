import TapeMachine.Generator.Dispatch

/-!
# Demonstration programs

A few programs that show what can be generated: a greeting, a product, a dialog, and a table of
primes found by trial division.
-/

namespace TapeMachine.Demo

open Generator

/-- Greets the world. -/
def hello : Gen Fragment :=
  writeString (utf8 "Hello, World!\n")

/-- Prints five times seven. -/
def product : Gen Fragment :=
  let x := Register.cellOf 'x'
  sequence [setAt x 5, mulAt x 7, writeDecimal x, writeChar Bytes.newline]

/-- Asks whether things are valid. -/
def dialog : Gen Fragment :=
  sequence [
    dispatchFrom 1 [
      (1, ask (utf8 "valid?") 3 5),
      (3, say (utf8 "no.") 0),
      (5, say (utf8 "yes.") 0)],
    say (utf8 "goodbye!") 0]

/-- Clears `prime` if a number between one and `d` divides `n`, trying them downwards. -/
def tryDivisors (n m d goOn prime : Int) : Gen Fragment :=
  loopAt goOn <| sequence [
    -- One divides every number, so the search ends before it.
    decAt d,
    ifZero d (clearAt goOn),
    incAt d,
    ifNonzero goOn <| sequence [
      copy m n,
      moveTo m,
      modCell d,
      ifZero m (sequence [clearAt prime, clearAt goOn])],
    decAt d]

/-- Prints the primes from 2 to `limit`, one a line, by trial division with all numbers from half
the candidate downwards. -/
def primes (limit : Int) : Gen Fragment :=
  let n := Register.cellOf 'n'
  let m := Register.cellOf 'm'
  let d := Register.cellOf 'd'
  let goOn := Register.cellOf 'l'
  let prime := Register.cellOf 'p'
  let count := Register.cellOf 'c'
  if limit < 2 then return []
  else sequence [
    setAt n 2,
    -- There are as many candidates as numbers from two to the limit.
    setAt count (limit - 1),
    repeatBy count <| sequence [
      copy d n,
      moveTo d,
      div 2,
      setAt prime 1,
      setAt goOn 1,
      tryDivisors n m d goOn prime,
      ifNonzero prime (sequence [writeDecimal n, writeChar Bytes.newline]),
      incAt n]]

/-- The demonstrations by name, in the order of their names. -/
def all : List (String × Gen Fragment) := [
  ("dialog", dialog),
  ("hello", hello),
  ("primes", primes 255),
  ("product", product)]

/-- The demonstration with the given name. -/
def named? (name : Bytes) : Option (Gen Fragment) :=
  all.findSome? fun (key, build) => if utf8 key = name then some build else none

/-- The names of the demonstrations. -/
def names : Bytes :=
  Bytes.joinWith (utf8 ", ") (all.map fun (key, _) => utf8 key)

end TapeMachine.Demo
