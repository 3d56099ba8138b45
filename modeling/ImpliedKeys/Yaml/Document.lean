import ImpliedKeys.Yaml.Node.Reader

/-!
# Documents

A text holds one document, which may be announced by directives and a line of dashes and closed by
a line of dots. A text without a document stands for an absent node.

What follows a document must not be another one. Text that could not begin a document is passed
over there, as long as the token after the document can be made out.
-/
namespace ImpliedKeys.Yaml

def passEnds? (fuel : Nat) (s : Source) : Option Source :=
  match fuel with
  | 0 => none
  | fuel + 1 => do
    let (token, s) ← s.peek?
    if token = .documentEnd then passEnds? fuel s.next else return s

/-- Passes directives. The version may be given once, and so may the namespace of each handle. -/
def passDirectives? (fuel : Nat) (versioned : Bool) (s : Source) : Option Source :=
  match fuel with
  | 0 => none
  | fuel + 1 => do
    let (token, s) ← s.peek?
    match token with
    | .directive .version => if versioned then none else passDirectives? fuel true s.next
    | .directive (.handle handle space) =>
      if (s.handles.lookup handle).isSome then none
      else
        passDirectives? fuel versioned { s.next with handles := (handle, space) :: s.handles }
    | .directive .reserved => passDirectives? fuel versioned s.next
    | _ => return s

/-- Passes directives and the line of dashes that must follow them. -/
def passStart? (fuel : Nat) (s : Source) : Option Source := do
  let (token, s) ← (← passDirectives? fuel false s).peek?
  if token = .documentStart then return s.next else none

def isBoundary : Token → Bool
  | .directive _ | .documentStart | .documentEnd | .textEnd => true
  | _ => false

/-- The node of a document after a line of dashes, or at its start. -/
def readRoot? (fuel : Nat) (announced : Bool) (s : Source) : Option (Node × Source) := do
  let (token, s) ← s.peek?
  if announced && isBoundary token then return readAbsent s
  else readNode fuel 0 true false s

/-- Whether a node that is no alias begins. -/
def beginsNode (s : Source) : Bool :=
  let found := do
    let (p, s) ← Properties.read? s
    let (token, _) ← s.peek?
    match token with
    | .scalar _ _ | .flowSequenceStart | .flowMappingStart | .blockSequenceStart
    | .blockMappingStart => return true
    | _ => return p.given
  found.getD false

/-- Whether the node of a document begins, or is left out. -/
def beginsRoot (announced : Bool) (s : Source) : Bool :=
  match s.peek? with
  | none => false
  | some (token, s) => (announced && isBoundary token) || beginsNode s

def beginsDocument (fuel : Nat) (s : Source) : Bool :=
  match (passEnds? fuel s).bind Source.peek? with
  | none | some (.textEnd, _) => false
  | some (token, s) =>
    if isBoundary token then ((passStart? fuel s).map (beginsRoot true)).getD false
    else beginsRoot false s

/-- Whether a text may go on as it does after a document. -/
def mayEnd (fuel : Nat) (s : Source) : Bool :=
  match s.peek? with
  | none | some (.directive _, _) => false
  | some (.documentEnd, s) => !beginsDocument fuel { s.next with handles := [] }
  | some (.documentStart, s) => !beginsRoot true { s.next with handles := [] }
  | some _ => true

/-- Reads the node of the one document in a text. -/
def read? (text : String) : Option Node := do
  let s := Source.ofString text
  let fuel := 8 * s.tokens.limit
  let (token, s) ← (← passEnds? fuel s).peek?
  if token = .textEnd then return .absent
  else
    let announced := isBoundary token
    let s ← if announced then passStart? fuel s else some s
    let (n, s) ← readRoot? fuel announced s
    if mayEnd fuel s && s.isModest then return n else none

end ImpliedKeys.Yaml
