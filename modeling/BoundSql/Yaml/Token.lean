namespace BoundSql.Yaml

inductive Style
  | plain
  | quoted
  | block
  deriving Repr, DecidableEq

inductive Token
  | versionDirective
  | tagDirective (handle start : String)
  | documentStart
  | documentEnd
  | blockSequenceStart
  | blockMappingStart
  | blockEnd
  | flowSequenceStart
  | flowSequenceEnd
  | flowMappingStart
  | flowMappingEnd
  | blockEntry
  | flowEntry
  | key
  | value
  | reference (name : String)
  | anchor (name : String)
  | tag (handle suffix : String)
  | scalar (style : Style) (text : String)
  deriving Repr, DecidableEq

namespace Token

def isProperty : Token → Bool
  | anchor _ | tag .. => true
  | _ => false

def isDirective : Token → Bool
  | versionDirective | tagDirective .. => true
  | _ => false

end Token

def endOfText : Char := '\x00'

def isBreak (c : Char) : Bool := c = '\n' || c = '\r'

def isLineEnd (c : Char) : Bool := isBreak c || c = endOfText

def isBlank (c : Char) : Bool := c = ' ' || c = '\t'

def isGap (c : Char) : Bool := isBlank c || isLineEnd c

def isFlow (c : Char) : Bool := [',', '[', ']', '{', '}'].contains c

def isWord (c : Char) : Bool :=
  ('0' ≤ c && c ≤ '9') || ('a' ≤ c && c ≤ 'z') || ('A' ≤ c && c ≤ 'Z') || c = '_' || c = '-'

def isAnchor (c : Char) : Bool := !isGap c && !isFlow c && c ≠ '\ufeff'

def isUri (c : Char) : Bool := isWord c || "#;/?:@&=+$,.!~*'()[]%".contains c

def isTag (c : Char) : Bool := isUri c && !isFlow c && c ≠ '!'

end BoundSql.Yaml
