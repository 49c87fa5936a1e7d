/-!
# The metadata of a theme

A theme may describe itself under five keys, which have an order of their own.
-/

namespace Highlight

/-- The descriptive keys of a theme, in their order. -/
inductive MetadataKey
  | uuid
  | semanticClass
  | name
  | author
  | comment
deriving DecidableEq

def MetadataKey.text : MetadataKey → String
  | .uuid => "uuid"
  | .semanticClass => "semanticClass"
  | .name => "name"
  | .author => "author"
  | .comment => "comment"

structure Metadata where
  uuid : Option String
  semanticClass : Option String
  name : Option String
  author : Option String
  comment : Option String
deriving DecidableEq

namespace Metadata

def get? (m : Metadata) : MetadataKey → Option String
  | .uuid => m.uuid
  | .semanticClass => m.semanticClass
  | .name => m.name
  | .author => m.author
  | .comment => m.comment

/-- What is given, in the order of the keys. -/
def entries (m : Metadata) : List (MetadataKey × String) :=
  [.uuid, .semanticClass, .name, .author, .comment].filterMap fun key =>
    (m.get? key).map fun value => (key, value)

end Metadata

end Highlight
