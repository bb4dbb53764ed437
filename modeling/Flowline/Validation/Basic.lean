import Flowline.Catalog.Basic
import Flowline.Document.Reader
import Flowline.Graph.Order

/-! Validation in phases: structure and parameters first; compatibility of inputs and cycles only for a
pipeline that passes those. -/
namespace Flowline.Validation

/-! The structure of a pipeline: its ids, its node types and the targets of its dependencies. -/

def isAsciiLetter (c : Char) : Bool := ('a' ≤ c && c ≤ 'z') || ('A' ≤ c && c ≤ 'Z')
def isAsciiDigit (c : Char) : Bool := '0' ≤ c && c ≤ '9'

/-- A letter, then letters, digits and underscores. -/
def isId (s : String) : Bool :=
  match s.toList with
  | [] => false
  | c :: rest => isAsciiLetter c && rest.all fun c => isAsciiLetter c || isAsciiDigit c || c = '_'

def nodePlace (index : Nat) : String := s!"nodes[{index}]"

/-- Repeated and malformed ids; `seen` are the ids before. -/
def idFaults : Nat → List String → List Declaration → List Diagnostic
  | _, _, [] => []
  | i, seen, n :: rest =>
    (if seen.contains n.id then
      [((Finding.duplicateId n.id).report.atNode n.id).atLocation (nodePlace i)] else [])
    ++ (if isId n.id then [] else
      [((Finding.invalidId n.id).report.atNode n.id).atField (nodePlace i ++ ".id")])
    ++ idFaults (i + 1) (n.id :: seen) rest

/-- Repeated and unknown targets of one node, from the `j`-th on; `seen` are the targets before. -/
def targetFaults (ids : List String) (i : Nat) (n : Declaration) :
    Nat → List String → List String → List Diagnostic
  | _, _, [] => []
  | j, seen, d :: rest =>
    let place := nodePlace i ++ s!".depends_on[{j}]"
    (if seen.contains d then
      [((Finding.repeatedDependency n.id d).report.atNode n.id).atField place]
    else if ids.contains d then []
    else [((Finding.unknownDependency n.id d).report.atNode n.id).atField place])
    ++ targetFaults ids i n (j + 1) (d :: seen) rest

/-- What is wrong with a node's type, or else with its dependencies. -/
def nodeFaults (catalog : Catalog) (ids : List String) (i : Nat) (n : Declaration) :
    List Diagnostic :=
  if catalog.contains n.type then targetFaults ids i n 0 [] n.dependsOn
  else [((Finding.unknownType n.type catalog.known).report.atNode n.id).atField
    (nodePlace i ++ ".type")]

def structureFaults (catalog : Catalog) (doc : Document) : List Diagnostic :=
  if doc.nodes.isEmpty then [Finding.noNodes.report]
  else idFaults 0 [] doc.nodes ++ doc.nodes.zipIdx.flatMap fun (n, i) =>
    nodeFaults catalog (doc.nodes.map (·.id)) i n

/-- Ids of nodes whose type is unknown. -/
def untyped (catalog : Catalog) (doc : Document) : List String :=
  (doc.nodes.filter fun n => !catalog.contains n.type).map (·.id)

/-! The parameters of each node: presence, kinds, and the rules of its type. -/

def missingFaults (c : Contract) (n : Declaration) : List Diagnostic :=
  (c.required.filter fun p => !n.params.has p.name).map fun p =>
    ((Finding.missingParameter p.name n.type n.id).report.atNode n.id).atField
      (Rule.paramPlace p.name)

/-- What is wrong with one given parameter. -/
def givenFault? (c : Contract) (n : Declaration) (key : String) (v : Value) : Option Diagnostic :=
  let here (f : Finding) := (f.report.atNode n.id).atField (Rule.paramPlace key)
  match c.param? key with
  | none => some (here (.unknownParameter key n.type n.id))
  | some p => if p.kind.accepts v then none else some (here (.wrongKind key n.id p.kind v))

def givenFaults (c : Contract) (n : Declaration) : List Diagnostic :=
  n.params.filterMap fun (key, v) => givenFault? c n key v

/-- Rules count only where every parameter is present and of its kind. -/
def parameterFaults (c : Contract) (n : Declaration) : List Diagnostic :=
  let faults := missingFaults c n ++ givenFaults c n
  if faults.any (·.isError) then faults else faults ++ c.rules.flatMap (· n)

/-- The parameters of all nodes but those in `skip`. -/
def allParameterFaults (catalog : Catalog) (skip : List String) (nodes : List Declaration) :
    List Diagnostic :=
  nodes.flatMap fun n =>
    if skip.contains n.id then []
    else match catalog.get? n.type with
      | some c => parameterFaults c n
      | none => []

/-! Whether the inputs of each node are what it expects: their number, their shapes and their
columns. -/

/-- What the inputs of one node offer, gathered input by input. -/
structure Offer where
  columns : List String := []
  /-- No input has unknown columns. -/
  closed : Bool := true
  inputs : Nat := 0
  faults : List Diagnostic := []

/-- The offer with the input at index `i` added; one of a wrong shape is a fault and offers nothing. -/
def Offer.add (c : Contract) (n : Declaration) (o : Offer) (i : Nat) (producer : String)
    (produced : Schema) : Offer :=
  if c.input.accepts produced.shape then
    { o with columns := o.columns ++ produced.columns, closed := o.closed && !produced.isOpen
             inputs := o.inputs + 1 }
  else
    let fault := Finding.wrongShape n.id c.input.accepted producer produced.shape
    { o with faults := o.faults ++ [(fault.report.atNode n.id).atField s!"depends_on[{i}]"] }

def offer (c : Contract) (n : Declaration) (inputs : List (String × Schema)) : Offer :=
  inputs.zipIdx.foldl (fun o ((producer, produced), i) => o.add c n i producer produced) {}

def atDependencies (n : Declaration) (f : Finding) : Diagnostic :=
  (f.report.atNode n.id).atField "depends_on"

/-- Required columns that no input offers, where the columns are known. -/
def columnFaults (c : Contract) (n : Declaration) (o : Offer) : List Diagnostic :=
  let missing := (c.input.requiredColumns n.params).filter fun col => !o.columns.contains col
  if !o.closed || o.inputs = 0 || missing.isEmpty then []
  else [atDependencies n (.missingColumns n.id missing n.dependencies)]

/-- Faults of one node, the schemas of its dependencies given. -/
def inputFaults (c : Contract) (n : Declaration) (inputs : List (String × Schema)) :
    List Diagnostic :=
  let count := inputs.length
  let o := offer c n inputs
  (if c.input.arity.contains count then []
    else [atDependencies n (.inputCount n.id n.type c.input.arity count)])
  ++ o.faults ++ columnFaults c n o

/-- Faults of one node; a source takes no inputs. -/
def compatibilityFaults (catalog : Catalog) (n : Declaration) : StateM Resolver (List Diagnostic) :=
  match catalog.get? n.type with
  | none => return []
  | some c =>
    if c.isSource then
      return if n.dependencies.isEmpty then []
        else [atDependencies n (.sourceWithInputs n.id n.type n.dependencies)]
    else do
      let schemas ← Resolver.resolveAll n.dependencies
      return inputFaults c n (n.dependencies.zip schemas)

def allCompatibilityFaults (catalog : Catalog) (doc : Document) : List Diagnostic :=
  let run : StateM Resolver (List (List Diagnostic)) :=
    doc.nodes.mapM (compatibilityFaults catalog)
  (run.run { catalog, nodes := doc.nodes }).1.flatten

/-! The phases. -/

/-- Structure, then parameters; a pipeline without nodes has nothing more to say. -/
def semanticFaults (catalog : Catalog) (doc : Document) : List Diagnostic :=
  let faults := structureFaults catalog doc
  if doc.nodes.isEmpty then faults
  else faults ++ allParameterFaults catalog (untyped catalog doc) doc.nodes

def cycleFault (path : List String) : Diagnostic :=
  match path.head? with
  | some id => ((Finding.cycle path).report.atNode id).atField "depends_on"
  | none => (Finding.cycle path).report

def cycleFaults (doc : Document) : List Diagnostic :=
  match (Graph.ofDeclarations doc.nodes).topologicalOrder with
  | .ok _ => []
  | .error path => [cycleFault path]

def checkDocument (catalog : Catalog) (doc : Document) : Report :=
  let semantic : Report := ⟨semanticFaults catalog doc⟩
  if semantic.isValid then
    semantic.extend (allCompatibilityFaults catalog doc ++ cycleFaults doc)
  else semantic

def check (catalog : Catalog) (source : String) (format : Format) : Report :=
  match Document.read source format with
  | .ok doc => checkDocument catalog doc
  | .error faults => ⟨faults⟩

end Flowline.Validation
