import BoundSql.Number.Text
import BoundSql.Yaml.Lexer

namespace BoundSql.Yaml

open Lexing

def anchorName : Lexing String := do
  passContent 1
  let name ← takeWhile isAnchor
  if name = "" then refuse
  return name

def byteCount? (b : Nat) : Option Nat :=
  if b < 0x80 then some 1
  else if b < 0xC0 then none
  else if b < 0xE0 then some 2
  else if b < 0xF0 then some 3
  else if b < 0xF8 then some 4
  else none

def percentByte : Lexing Nat := do
  match (← get).rest with
  | '%' :: h :: l :: _ =>
    match Text.hexVal? h, Text.hexVal? l with
    | some h, some l =>
      passContent 3
      return 16 * h + l
    | _, _ => refuse
  | _ => refuse

/-- The code with `n` more bytes, all of which must be such as stand inside a character. -/
def moreBytes (code : Nat) : Nat → Lexing Nat
  | 0 => return code
  | n + 1 => do
    let b ← percentByte
    if b < 0x80 ∨ 0xBF < b then refuse
    moreBytes (code * 256 + b) n

/-- A character written byte by byte with percent signs. The bytes as they are make its code. -/
def percentChar : Lexing Char := do
  let b ← percentByte
  match byteCount? b with
  | none => refuse
  | some n =>
    let code ← moreBytes b (n - 1)
    if code.isValidChar then return Char.ofNat code else refuse

/-- The characters in front that have the property, some of them written with percent signs. -/
def uriText (p : Char → Bool) (start : String) : Lexing String :=
  fold (fun text ↦ do
    let c ← next
    if !p c then return (text, false)
    else if c = '%' then return (text.push (← percentChar), true)
    else
      passContent 1
      return (text.push c, true)) start

/-- A handle: an exclamation mark, a word, and another exclamation mark if there is one. -/
def tagHandle : Lexing String := do
  if (← next) ≠ '!' then refuse
  passContent 1
  let word ← takeWhile isWord
  if (← next) = '!' then
    passContent 1
    return "!" ++ word ++ "!"
  else return "!" ++ word

def isNamedHandle (handle : String) : Bool :=
  2 ≤ handle.length && handle.toList.getLast? = some '!'

def tag : Lexing Token := do
  let t ← if (← peek 1) = '<' then
      passContent 2
      let text ← uriText isUri ""
      if (← next) ≠ '>' then refuse
      passContent 1
      pure (Token.tag "" text)
    else
      let handle ← tagHandle
      if isNamedHandle handle then
        let suffix ← uriText isTag ""
        if suffix = "" then refuse
        pure (Token.tag handle suffix)
      else
        let suffix ← uriText isTag (String.ofList (handle.toList.drop 1))
        pure (if suffix = "" then Token.tag "" "!" else Token.tag "!" suffix)
  let c ← next
  if !isGap c && !((← get).flow ≠ 0 && isFlow c) then refuse
  return t

def passBlanks : Lexing Unit := do
  pass ((← get).rest.takeWhile isBlank).length

def versionNumber : Lexing Unit := do
  let ds ← takeWhile Text.isDigit
  if ds = "" ∨ 9 < ds.length then refuse

def version : Lexing Token := do
  passBlanks
  versionNumber
  if (← next) ≠ '.' then refuse
  passContent 1
  versionNumber
  return .versionDirective

def tagStart : Lexing String := do
  let c ← next
  if c = '!' then
    passContent 1
    uriText isUri "!"
  else if isTag c then uriText isUri ""
  else refuse

def tagDirective : Lexing Token := do
  passBlanks
  let handle ← tagHandle
  if handle ≠ "!" && !isNamedHandle handle then refuse
  passBlanks
  let start ← tagStart
  if !isGap (← next) then refuse
  return .tagDirective handle start

def directive : Lexing Token := do
  passContent 1
  let name ← takeWhile isWord
  if name = "" ∨ !isGap (← next) then refuse
  let t ← match name with
    | "YAML" => version
    | "TAG" => tagDirective
    | _ =>
      let _ ← takeWhile fun c ↦ !isBreak c
      pure (Token.tagDirective "" "")
  let _ ← blanks true
  if !isLineEnd (← next) then refuse
  if isBreak (← next) then passBreak
  return t

end BoundSql.Yaml
