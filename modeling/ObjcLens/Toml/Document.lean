import ObjcLens.Toml.Scalar

/-!
# TOML documents

A document is a sequence of lines: entries `key = value`, heads of tables `[key]` and heads of
tables in a list `[[key]]`. An entry belongs to the table whose head stands above it. A key with
points leads through tables, which come into being on the way.

Nothing is defined twice: a head can name a table that came into being on the way to another one,
but neither one that has a head nor one that an entry with points made, and an entry cannot reach
into a table that has a head. `Toml.read?` reads a document.
-/

namespace ObjcLens

namespace Toml

/-- What a key stands for while a document is read. -/
inductive Node where
  /-- A value. -/
  | value (value : SettingValue)
  /-- A table: it has a head, or it cannot be reached by entries any more; an entry with points made
  it; its entries. -/
  | table (isDefined isDotted : Bool) (children : List (Text × Node))
  /-- A list of tables: the finished ones, and the entries of the last one. -/
  | tables (finished : List SettingValue) (children : List (Text × Node))

mutual

/-- The value of a node. -/
def Node.toValue : Node → SettingValue
  | .value v => v
  | .table _ _ children => .entries (Node.entries children)
  | .tables finished children => .list (finished ++ [.entries (Node.entries children)])

/-- The values of nodes. -/
def Node.entries : List (Text × Node) → List (Text × SettingValue)
  | [] => []
  | (key, node) :: rest => (key, node.toValue) :: Node.entries rest

end

mutual

/-- The node behind a head: the tables that entries with points made are finished. -/
def Node.settle : Node → Node
  | .value v => .value v
  | .table isDefined isDotted children =>
    .table (isDefined || isDotted) false (Node.settleAll children)
  | .tables finished children => .tables finished (Node.settleAll children)

/-- The nodes behind a head. -/
def Node.settleAll : List (Text × Node) → List (Text × Node)
  | [] => []
  | (key, node) :: rest => (key, node.settle) :: Node.settleAll rest

end

/-- The entries of a table. -/
abbrev Table := List (Text × Node)

namespace Table

/-- The node of a key. -/
def get? (t : Table) (key : Text) : Option Node :=
  (t.find? fun entry => entry.1 = key).map (·.2)

/-- The table with a node in place of that of a key, or behind the others. -/
def put (t : Table) (key : Text) (node : Node) : Table :=
  if (t.get? key).isSome then t.map fun entry => if entry.1 = key then (key, node) else entry
  else t ++ [(key, node)]

/-- The table with the value of a key with points. -/
def assign? (value : SettingValue) : List Text → Table → Option Table
  | [], _ => none
  | [key], t => if (t.get? key).isSome then none else some (t.put key (.value value))
  | key :: path, t =>
    match t.get? key with
    | none => do return t.put key (.table false true (← assign? value path []))
    | some (.table false isDotted children) => do
      return t.put key (.table false isDotted (← assign? value path children))
    | some _ => none

/-- The table with a change where a key leads to: the last part of the key is left to the change,
and tables come into being on the way. -/
def change? (f : Text → Table → Option Table) : List Text → Table → Option Table
  | [], _ => none
  | [key], t => f key t
  | key :: path, t =>
    match t.get? key with
    | none => do return t.put key (.table false false (← change? f path []))
    | some (.table isDefined isDotted children) => do
      return t.put key (.table isDefined isDotted (← change? f path children))
    | some (.tables finished children) => do
      return t.put key (.tables finished (← change? f path children))
    | some (.value _) => none

/-- The table behind the head of a table. -/
def openTable? (key : Text) (t : Table) : Option Table :=
  match t.get? key with
  | none => some (t.put key (.table true false []))
  | some (.table false _ children) => some (t.put key (.table true false children))
  | some _ => none

/-- The table behind the head of a table in a list. -/
def openNext? (key : Text) (t : Table) : Option Table :=
  match t.get? key with
  | none => some (t.put key (.tables [] []))
  | some (.tables finished children) =>
    some (t.put key (.tables (finished ++ [.entries (Node.entries children)]) []))
  | some _ => none

/-- The table with an entry below a head. -/
def assignBelow? (path key : List Text) (value : SettingValue) (t : Table) : Option Table :=
  let inside (last : Text) (t : Table) : Option Table :=
    match t.get? last with
    | some (.table isDefined isDotted children) => do
      return t.put last (.table isDefined isDotted (← assign? value key children))
    | some (.tables finished children) => do
      return t.put last (.tables finished (← assign? value key children))
    | _ => none
  if path.isEmpty then t.assign? value key else t.change? inside path

end Table

/-- The text behind blanks, comments and line ends. The fuel bounds their number. -/
def skipLines? : Nat → Text → Option Text
  | 0, s => some s
  | fuel + 1, s => do
    let rest ← skipComment? (skipBlanks s)
    match rest with
    | b :: _ =>
      if b = 0x0A || b = 0x0D then skipLines? fuel (← lineEnd? rest) else return rest
    | [] => return []

/-- The word at the start of a text stands for a truth value. -/
def truth? (s : Text) : Option (SettingValue × Text) :=
  let words : List (String × Bool) := [("true", true), ("false", false)]
  words.findSome? fun (word, value) =>
    let word := Text.ofString word
    if word.isPrefixOf s then some (.truth value, s.drop word.length) else none

mutual

/-- The value at the start of a text, and what follows it. The fuel bounds the number of steps. -/
def value? : Nat → Text → Option (SettingValue × Text)
  | 0, _ => none
  | fuel + 1, s =>
    match s with
    | [] => none
    | b :: rest =>
      if b = byte '"' || b = 0x27 then (string? true s).map fun (t, after) => (.text t, after)
      else if b = byte 't' || b = byte 'f' then truth? s
      else if b = byte '[' then
        (items? fuel true rest).map fun (items, after) => (.list items, after)
      else if b = byte '\x7b' then
        (pairs? fuel true [] rest).map fun (t, after) => (.entries (Node.entries t), after)
      else numberOrMoment? s

/-- The items up to a closing bracket, and what follows it. A comma stands between two of them and
can stand behind the last one. -/
def items? : Nat → Bool → Text → Option (List SettingValue × Text)
  | 0, _, _ => none
  | fuel + 1, isFirst, s => do
    let s ← skipLines? (s.length + 1) s
    if s.head? = some (byte ']') then return ([], s.drop 1)
    let s ← if isFirst then some s
      else if s.head? = some (byte ',') then skipLines? (s.length + 1) (s.drop 1)
      else none
    if s.head? = some (byte ']') then return ([], s.drop 1)
    let (first, after) ← value? fuel s
    let (items, after) ← items? fuel false after
    return (first :: items, after)

/-- The entries up to a closing brace, behind those of a table, and what follows it. They stand on
one line, with commas between them only. -/
def pairs? : Nat → Bool → Table → Text → Option (Table × Text)
  | 0, _, _, _ => none
  | fuel + 1, isFirst, t, s => do
    let s := skipBlanks s
    if s.head? = some (byte '\x7d') then return (t, s.drop 1)
    let s ← if isFirst then some s
      else if s.head? = some (byte ',') then some (skipBlanks (s.drop 1))
      else none
    let (key, value, after) ← pair? fuel s
    pairs? fuel false (← t.assign? value key) after

/-- The key and the value at the start of a text, and what follows them. -/
def pair? : Nat → Text → Option (List Text × SettingValue × Text)
  | 0, _ => none
  | fuel + 1, s => do
    let (key, rest) ← key? (s.length + 1) s
    match rest with
    | 0x3D :: rest =>
      let (value, after) ← value? fuel (skipBlanks rest)
      return (key, value, after)
    | _ => none

end

/-- A document that was read up to some line. -/
structure Progress where
  /-- The entries of the document. -/
  table : Table := []
  /-- The key of the last head. -/
  path : List Text := []

/-- The document behind a head, which starts the text, and what follows the head. -/
def head? (p : Progress) (s : Text) : Option (Progress × Text) := do
  let isNext := s[1]? = some (byte '[')
  let (key, rest) ← key? (s.length + 1) (skipBlanks (s.drop (if isNext then 2 else 1)))
  let settled := Node.settleAll p.table
  if isNext then
    if rest.take 2 != Text.ofString "]]" then none
    return (⟨← Table.change? Table.openNext? key settled, key⟩, rest.drop 2)
  else
    if rest.head? != some (byte ']') then none
    return (⟨← Table.change? Table.openTable? key settled, key⟩, rest.drop 1)

/-- The document behind what a line holds, and what follows on the line. -/
def expression? (p : Progress) (s : Text) : Option (Progress × Text) := do
  if s.head? = some (byte '[') then head? p s
  else
    let (key, value, after) ← pair? (2 * s.length + 2) s
    return ({ p with table := ← p.table.assignBelow? p.path key value }, after)

/-- The document behind all lines of a text. The fuel bounds the number of lines. -/
def lines? : Nat → Progress → Text → Option Progress
  | 0, _, _ => none
  | fuel + 1, p, s => do
    let s := skipBlanks s
    let isSilent := s.head?.all fun b => b = 0x23 || b = 0x0A || b = 0x0D
    let (p, rest) ← if isSilent then some (p, s) else expression? p s
    let rest ← skipComment? (skipBlanks rest)
    if rest.isEmpty then return p else lines? fuel p (← lineEnd? rest)

/-- The settings that a text stands for. -/
def read? (s : Text) : Option SettingValue := do
  let p ← lines? (s.length + 1) {} s
  return .entries (Node.entries p.table)

end Toml

end ObjcLens
