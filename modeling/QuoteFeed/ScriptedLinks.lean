import QuoteFeed.Link

/-!
Links that do what has been laid down for them: whether they can be made, what they report while
being started, and which of their operations fail.
-/

namespace QuoteFeed

/-- What comes of asking for a link. -/
inductive LinkMaking where
  | link
  | failure
  | nothing
deriving DecidableEq

/-- What a link does while it is being started. -/
inductive DialMove where
  | opens
  | closes
  | errs
  | refuses
  | breaks
deriving DecidableEq

/-- A link: the attempt it reports to, those it reported to before, and its moves when started. -/
structure ScriptedLink where
  attached : Option Nat := none
  former : List Nat := []
  moves : List DialMove
deriving DecidableEq

namespace ScriptedLink

/-- Every attempt that the link has ever reported to, the last one first. -/
def attempts (l : ScriptedLink) : List Nat := l.attached.toList ++ l.former

def attach (attempt : Nat) (l : ScriptedLink) : ScriptedLink :=
  { l with attached := some attempt, former := l.attempts }

def detach (l : ScriptedLink) : ScriptedLink := { l with attached := none, former := l.attempts }

end ScriptedLink

/-- The links made so far, and what is laid down. -/
structure ScriptedLinks where
  links : List ScriptedLink := []
  making : LinkMaking := .link
  moves : List DialMove := []
  sendFails : Bool := false
  closeFails : Bool := false
  measured : Bool := true
deriving DecidableEq

namespace ScriptedLinks

/-- Makes a link with the moves laid down now. -/
def create : Effect ScriptedLinks (Except Failure (Option Nat)) := fun s =>
  match s.making with
  | .link => (.ok (some s.links.length), [.makeLink], { s with links := s.links ++ [{ moves := s.moves }] })
  | .failure => (.error .factory, [.makeLink], s)
  | .nothing => (.ok none, [.makeLink], s)

def changeLink (link : Nat) (f : ScriptedLink → ScriptedLink) (s : ScriptedLinks) : ScriptedLinks :=
  { s with links := s.links.modify link f }

/-- What a list of moves comes to: reports, up to a failure. -/
def play : List DialMove → List Report × Option Failure
  | [] => ([], none)
  | .opens :: rest => let (reports, failure) := play rest; (.opened :: reports, failure)
  | .closes :: rest => let (reports, failure) := play rest; (.closed :: reports, failure)
  | .errs :: rest => let (reports, failure) := play rest; (.error (octets "early") :: reports, failure)
  | .refuses :: _ => ([], some .connectRefused)
  | .breaks :: _ => ([], some .foreign)

/-- The links as the outside of a client. -/
def network : Network ScriptedLinks where
  create := create
  attach link attempt := changeLink link (ScriptedLink.attach attempt)
  detach link := changeLink link ScriptedLink.detach
  attached? link s := s.links[link]?.bind ScriptedLink.attached
  dial link endpoint s :=
    (play ((s.links[link]?.map ScriptedLink.moves).getD []), [.connectLink link endpoint], s)
  send link frame s := (if s.sendFails then some .sendRefused else none, [.sendLink link frame], s)
  close link s := (if s.closeFails then some .closeRefused else none, [.closeLink link], s)
  sample name value s := ((), if s.measured then [.sample name value] else [], s)

/-- A change of what is laid down; what is not mentioned stays. -/
structure Change where
  making : Option LinkMaking := none
  moves : Option (List DialMove) := none
  sendFails : Option Bool := none
  closeFails : Option Bool := none

def Change.apply (c : Change) (s : ScriptedLinks) : ScriptedLinks :=
  { s with
    making := c.making.getD s.making
    moves := c.moves.getD s.moves
    sendFails := c.sendFails.getD s.sendFails
    closeFails := c.closeFails.getD s.closeFails }

end ScriptedLinks

end QuoteFeed
