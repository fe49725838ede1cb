import BoundSql.Yaml.Stream
import BoundSql.Yaml.Tree

namespace BoundSql.Yaml

structure Builder where
  tokens : List Token
  anchors : List (String × Nat)
  count : Nat
  nodes : List (Nat × Tree)
  handles : List (String × String)

abbrev Building := StateT Builder Option

namespace Building

variable {α : Type}

def refuse : Building α := fun _ ↦ none

def next : Building (Option Token) := do return (← get).tokens.head?

def skip : Building Unit := modify fun b ↦ { b with tokens := b.tokens.drop 1 }

def accept (t : Token) : Building Bool := do
  if (← next) = some t then
    skip
    return true
  else return false

def isAt (ts : List Token) : Building Bool := do
  match ← next with
  | some t => return ts.contains t
  | none => return false

def register (name : String) : Building Nat := do
  let b ← get
  set { b with anchors := (name, b.count) :: b.anchors, count := b.count + 1 }
  return b.count

/-- The name of a standard tag, or nothing for other tags. A handle with two marks must have been
defined. -/
def standardName (handle suffix : String) : Building (Option String) := do
  let defined := (← get).handles.lookup (if handle = "" && suffix = "!" then "" else handle)
  let start ← match defined with
    | some start => pure start
    | none =>
      if handle = "!!" then pure "tag:yaml.org,2002:"
      else if isNamedHandle handle then refuse
      else pure handle
  return if start = "tag:yaml.org,2002:" then some suffix else none

structure Properties where
  anchor : Option Nat
  /-- The name of the node's tag, if it has one; the inner name is that of a standard tag. -/
  tag : Option (Option String)

def anchor? : Building (Option Nat) := do
  match ← next with
  | some (.anchor name) =>
    skip
    return some (← register name)
  | _ => return none

def tag? : Building (Option (Option String)) := do
  match ← next with
  | some (.tag handle suffix) =>
    skip
    return some (← standardName handle suffix)
  | _ => return none

def properties : Building Properties := do
  match ← anchor? with
  | some a => return ⟨some a, ← tag?⟩
  | none =>
    match ← tag? with
    | some t => return ⟨← anchor?, some t⟩
    | none => return ⟨none, none⟩

def keep (anchor : Option Nat) (t : Tree) : Building Tree := do
  match anchor with
  | some a => modify fun b ↦ { b with nodes := (a, t) :: b.nodes }
  | none => pure ()
  return t

def reference (name : String) : Building Tree := do
  let b ← get
  match b.anchors.lookup name with
  | none => refuse
  | some a => return (b.nodes.lookup a).getD .invalid

def scalar (style : Style) (text : String) (tag : Option (Option String)) : Tree :=
  match style, tag with
  | .plain, none => .scalar (.ofPlain text)
  | .plain, some (some name) => Tree.ofTagged name text
  | _, _ => .scalar (.text text)

variable (node : Bool → Bool → Building Tree)

def nodeUnless (ends : List Token) (isBlock unindented : Bool) : Building Tree := do
  if ← isAt ends then return .null else node isBlock unindented

def blockItems (items : List Tree) : Nat → Building (List Tree)
  | 0 => refuse
  | fuel + 1 => do
    if ← accept .blockEnd then return items.reverse
    if !(← accept .blockEntry) then refuse
    let t ← nodeUnless node [.blockEntry, .blockEnd] true false
    blockItems (t :: items) fuel

def unindentedItems (items : List Tree) : Nat → Building (List Tree)
  | 0 => refuse
  | fuel + 1 => do
    if !(← accept .blockEntry) then return items.reverse
    let t ← nodeUnless node [.blockEntry, .key, .value, .blockEnd] true false
    unindentedItems (t :: items) fuel

def blockPairs (nodes : List Tree) : Nat → Building (List Tree)
  | 0 => refuse
  | fuel + 1 => do
    if ← accept .blockEnd then return nodes.reverse
    let ends := [Token.key, .value, .blockEnd]
    let k ← if ← accept .key then nodeUnless node ends true true
      else if ← isAt [.value] then pure .null
      else refuse
    let v ← if ← accept .value then nodeUnless node ends true true else pure .null
    blockPairs (v :: k :: nodes) fuel

def flowValue (ends : List Token) : Building Tree := do
  if ← accept .value then nodeUnless node ends false false else return .null

/-- An item of a list in brackets that is a pair without braces; its mark has been read. An empty
key takes the token behind it along. -/
def flowPair : Building Tree := do
  let ends := [Token.flowEntry, .flowSequenceEnd]
  let k ← if ← isAt (.value :: ends) then
      skip
      pure Tree.null
    else node false false
  let v ← flowValue node ends
  match Tree.pairUp [] [k, v] with
  | some es => return .mapping es
  | none => refuse

def flowItems (items : List Tree) (isFirst : Bool) : Nat → Building (List Tree)
  | 0 => refuse
  | fuel + 1 => do
    if ← accept .flowSequenceEnd then return items.reverse
    if !isFirst && !(← accept .flowEntry) then refuse
    if ← accept .flowSequenceEnd then return items.reverse
    let t ← if ← accept .key then flowPair node else node false false
    flowItems (t :: items) false fuel

def flowPairs (nodes : List Tree) (isFirst : Bool) : Nat → Building (List Tree)
  | 0 => refuse
  | fuel + 1 => do
    if ← accept .flowMappingEnd then return nodes.reverse
    if !isFirst && !(← accept .flowEntry) then refuse
    if ← accept .flowMappingEnd then return nodes.reverse
    let ends := [Token.flowEntry, .flowMappingEnd]
    if ← accept .key then
      let k ← nodeUnless node (.value :: ends) false false
      let v ← flowValue node ends
      flowPairs (v :: k :: nodes) false fuel
    else if ← isAt [.value] then
      let v ← flowValue node ends
      flowPairs (v :: .null :: nodes) false fuel
    else
      let k ← node false false
      flowPairs (.null :: k :: nodes) false fuel

def mapping (nodes : List Tree) : Building Tree := do
  match Tree.pairUp [] nodes with
  | some es => return .mapping es
  | none => refuse

def collection? (isBlock unindented : Bool) : Building (Option Tree) := do
  let room := (← get).tokens.length + 1
  match ← next with
  | some .flowSequenceStart =>
    skip
    return some (.list (← flowItems node [] true room))
  | some .flowMappingStart =>
    skip
    return some (← mapping (← flowPairs node [] true room))
  | some .blockEntry =>
    if unindented then return some (.list (← unindentedItems node [] room)) else return none
  | some .blockSequenceStart =>
    if !isBlock then return none
    skip
    return some (.list (← blockItems node [] room))
  | some .blockMappingStart =>
    if !isBlock then return none
    skip
    return some (← mapping (← blockPairs node [] room))
  | _ => return none

end Building

open Building

def node : Nat → Bool → Bool → Building Tree
  | 0, _, _ => refuse
  | fuel + 1, isBlock, unindented => do
    if let some (.reference name) ← next then
      skip
      return ← reference name
    let p ← properties
    if let some (.scalar style text) ← next then
      skip
      return ← keep p.anchor (scalar style text p.tag)
    match ← collection? (node fuel) isBlock unindented with
    | some t => keep p.anchor t
    | none =>
      if p.anchor.isNone && p.tag.isNone then refuse
      keep p.anchor (scalar .plain "" p.tag)

/-- Reads the directives in front of a document. Each one takes the place of the definitions before
it; there is at most one for the version. -/
def directives (hasVersion : Bool) : Nat → Building Unit
  | 0 => refuse
  | fuel + 1 => do
    match ← next with
    | some .versionDirective =>
      if hasVersion then refuse
      modify fun b ↦ { b with handles := [] }
      skip
      directives true fuel
    | some (.tagDirective handle start) =>
      modify fun b ↦ { b with handles := [(handle, start)] }
      skip
      directives hasVersion fuel
    | _ => return ()

def isEmptyDocument : Building Bool := do
  match ← next with
  | none => return true
  | some t => return t.isDirective || t == .documentStart || t == .documentEnd

def passEnds : Nat → Building Unit
  | 0 => pure ()
  | fuel + 1 => do if ← accept .documentEnd then passEnds fuel

/-- Reads all documents; the start of the next one need be marked unless `implicit` says otherwise.
-/
def documents (trees : List Tree) (implicit : Bool) : Nat → Building (List Tree)
  | 0 => refuse
  | fuel + 1 => do
    passEnds ((← get).tokens.length + 1)
    let room := (← get).tokens.length + 1
    match ← next with
    | none => return trees.reverse
    | some t =>
      modify fun b ↦ { b with anchors := [] }
      let isMarked := t.isDirective || t == .documentStart || !implicit
      let tree ← if isMarked then
          directives false room
          if !(← accept .documentStart) then refuse
          if ← isEmptyDocument then pure .null else node room true false
        else node room true false
      modify fun b ↦ { b with handles := [] }
      let isEnded ← accept .documentEnd
      if !isEnded && (← next).any Token.isDirective then refuse
      documents (tree :: trees) isEnded fuel

def parse (source : List Char) : Option (List Tree) := do
  let tokens ← tokens? source
  let (trees, _) ← (documents [] true (tokens.length + 1)).run ⟨tokens, [], 0, [], []⟩
  return trees

end BoundSql.Yaml
