import ForwardDecl.Yaml.Lexeme.Block
import ForwardDecl.Yaml.Lexeme.Plain
import ForwardDecl.Yaml.Lexeme.Quoted
import ForwardDecl.Yaml.Lexeme.Tag

/-! # The tokens of a document

A document is first read as tokens.  Besides what is written, tokens mark where
a block collection begins and ends, which only indentation shows, and where a
key begins, which shows only when its colon is found.
-/
namespace ForwardDecl
namespace Yaml

/-- What a token is. -/
inductive TokenKind
  | streamEnd
  | directive (content : Directive)
  | documentStart
  | documentEnd
  | blockSequenceStart
  | blockMappingStart
  | blockEnd
  | flowSequenceStart
  | flowSequenceEnd
  | flowMappingStart
  | flowMappingEnd
  | blockEntry
  | flowEntry
  | key
  | value
  | reference (name : String)
  | anchor (name : String)
  | tag (handle suffix : String)
  | scalar (text : String) (plain : Bool)
  deriving DecidableEq, Repr

/-- A token and the number of the line that it starts on, counted from one. -/
structure Token where
  kind : TokenKind
  line : Nat
  deriving DecidableEq, Repr

end Yaml
end ForwardDecl
