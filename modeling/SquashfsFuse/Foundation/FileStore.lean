import Mathlib.Data.List.Infix
import Mathlib.Logic.Function.Basic
import SquashfsFuse.Foundation.Services

/-! Read-only file systems as seen by their users: names, attributes and contents, and
handles on open files. -/

namespace SquashfsFuse

/-! ## File systems -/

structure FileEntry (Ref Name Hint : Type) where
  name : Name
  ref : Ref
  hint : Hint

inductive FileNode (Ref Name Hint Byte : Type)
  | directory (entries : List (FileEntry Ref Name Hint))
  | file (content : List Byte)
  | link (target : List Byte)
  | other

namespace FileNode

variable {Ref Name Hint Byte : Type}

def isDirectory : FileNode Ref Name Hint Byte → Bool
  | directory _ => true
  | _ => false

def isFile : FileNode Ref Name Hint Byte → Bool
  | file _ => true
  | _ => false

def isLink : FileNode Ref Name Hint Byte → Bool
  | link _ => true
  | _ => false

end FileNode

/-- A tree of directories with files and links in it, and what is known of the whole. -/
structure FileStore (Ref Name Hint Attr Summary Byte : Type) where
  root : Ref
  attr : Ref → Attr
  node : Ref → FileNode Ref Name Hint Byte
  summary : Summary

inductive FileError
  | noEntry
  | notDirectory
  | invalid
  deriving Repr, DecidableEq

/-- What can be requested of a file system. The handle that a file will have is given by the
one who opens it. -/
inductive FileRequest (Name Handle : Type)
  | getAttr (path : List Name)
  | list (path : List Name)
  | followLink (path : List Name) (room : Nat)
  | openAs (path : List Name) (handle : Handle)
  | readAt (handle : Handle) (offset size : Nat)
  | close (handle : Handle)
  | summarize
  deriving DecidableEq

inductive FileReply (Name Hint Attr Summary Byte Handle : Type)
  | attr (attr : Attr)
  | entries (entries : List (Name × Hint))
  | target (target : List Byte)
  | opened (handle : Handle)
  | data (bytes : List Byte)
  | closed
  | summary (summary : Summary)
  | failed (error : FileError)

namespace FileStore

variable {Ref Name Hint Attr Summary Byte Handle : Type} [DecidableEq Name]
  [DecidableEq Handle] (store : FileStore Ref Name Hint Attr Summary Byte)

def lookUp (ref : Ref) (name : Name) : Except FileError Ref :=
  match store.node ref with
  | .directory entries =>
      match entries.find? fun entry => decide (entry.name = name) with
      | some entry => .ok entry.ref
      | none => .error .noEntry
  | _ => .error .notDirectory

/-- Look the names up one after the other. -/
def walk (ref : Ref) (path : List Name) : Except FileError Ref := path.foldlM store.lookUp ref

/-- What a path leads to from the root. -/
def find (path : List Name) : Except FileError Ref := store.walk store.root path

inductive Reachable : Ref → Prop
  | root : Reachable store.root
  | entry {ref entries entry} : Reachable ref → store.node ref = .directory entries →
      entry ∈ entries → Reachable entry.ref

/-! ## Requests -/

def answerAt (path : List Name)
    (answer : Ref → FileReply Name Hint Attr Summary Byte Handle) :
    FileReply Name Hint Attr Summary Byte Handle :=
  match store.find path with
  | .ok ref => answer ref
  | .error error => .failed error

/-- The entries of a directory, as they are listed. -/
def listing (ref : Ref) : FileReply Name Hint Attr Summary Byte Handle :=
  match store.node ref with
  | .directory entries => .entries (entries.map fun entry => (entry.name, entry.hint))
  | _ => .failed .notDirectory

/-- As much of the target of a link as there is room for in front of a terminator. -/
def linkTarget (room : Nat) (ref : Ref) : FileReply Name Hint Attr Summary Byte Handle :=
  match store.node ref with
  | .link target => .target (target.take (room - 1))
  | _ => .failed .invalid

/-- The answer to a request and the handles behind it. Handles are used while they are open,
and a new one is not open yet. -/
def step : Specification (Handle → Option Ref) (FileRequest Name Handle)
    (FileReply Name Hint Attr Summary Byte Handle) := fun handles request =>
  match request with
  | .getAttr path => some (store.answerAt path fun ref => .attr (store.attr ref), handles)
  | .list path => some (store.answerAt path store.listing, handles)
  | .followLink path room =>
      if room = 0 then
        some (.failed .invalid, handles)
      else
        some (store.answerAt path (store.linkTarget room), handles)
  | .openAs path handle =>
      match handles handle with
      | some _ => none
      | none =>
          match store.find path with
          | .error error => some (.failed error, handles)
          | .ok ref =>
              match store.node ref with
              | .file _ => some (.opened handle, Function.update handles handle (some ref))
              | _ => some (.failed .invalid, handles)
  | .readAt handle offset size =>
      match handles handle with
      | none => none
      | some ref =>
          match store.node ref with
          | .file content => some (.data ((content.drop offset).take size), handles)
          | _ => none
  | .close handle =>
      match handles handle with
      | none => none
      | some _ => some (.closed, Function.update handles handle none)
  | .summarize => some (.summary store.summary, handles)

variable {store} {ref : Ref} {handles after : Handle → Option Ref} {handle : Handle}
  {request : FileRequest Name Handle} {reply : FileReply Name Hint Attr Summary Byte Handle}

theorem step_keeps (opened : handles handle = some ref) (kept : request ≠ .close handle)
    (step : store.step handles request = some (reply, after)) : after handle = some ref := by
  unfold FileStore.step at step
  cases request with
  | getAttr | list | summarize =>
      cases step
      exact opened
  | followLink path room =>
      dsimp only at step
      split at step
      · cases step
        exact opened
      · cases step
        exact opened
  | openAs path other =>
      dsimp only at step
      split at step
      · cases step
      · next free =>
          have apart : handle ≠ other := by
            rintro rfl
            rw [opened] at free
            cases free
          split at step
          · cases step
            exact opened
          · split at step
            · cases step
              rw [Function.update_of_ne apart]
              exact opened
            · cases step
              exact opened
  | readAt other offset size =>
      dsimp only at step
      split at step
      · cases step
      · split at step
        · cases step
          exact opened
        · cases step
  | close other =>
      dsimp only at step
      split at step
      · cases step
      · cases step
        rw [Function.update_of_ne (fun same => kept (congrArg _ same.symm))]
        exact opened

end FileStore

end SquashfsFuse
