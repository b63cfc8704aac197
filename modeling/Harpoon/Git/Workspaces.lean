import Harpoon.Deploy.Envvars
import Harpoon.Wire.Number

/-!
# Workspaces, and the command that Git starts ssh with

A directory for one operation, and `GIT_SSH_COMMAND` for it (`runner.rs`). Git has a shell take the command apart, and ssh takes the options
apart again.
-/

namespace Harpoon.Git

open Deploy.Envvars (isControl)
open Wire (Bytes utf8 fromUtf8)

inductive GitError where
  | invalid (message : String)
  | io (message : String)
  deriving DecidableEq, Repr

def workspacePrefix : String := "git-ws-"

/-- A private directory for one operation. -/
structure Workspace where
  root : String
  deriving DecidableEq, Repr

/-- A path below another one, which may end with a separator. -/
def joinPath (parent name : Bytes) : Bytes :=
  if parent = [] ∨ parent.getLast? = some 0x2F then parent ++ name else parent ++ [0x2F] ++ name

/-- `made` is what came of making the directories. -/
def Workspace.create (parent : Bytes) (nonce : String) (made : Except String Unit) : Except GitError Workspace :=
  if nonce.isEmpty || nonce = ".." || !nonce.toList.all fun c => c.isAlphanum || c = '_' || c = '.' || c = '-' then
    .error (.invalid "the workspace name may only contain letters, digits and _ . -")
  else
    match fromUtf8 (joinPath parent (utf8 (workspacePrefix ++ nonce))) with
    | none => .error (.invalid "the workspace path must be valid UTF-8")
    | some text =>
      if text.toList.any fun c => isControl c || c = '"' || c = '\\' || c = '$' || c = '%' then
        .error (.invalid "the workspace path may not contain control characters or any of \" \\ $ %")
      else
        match made with
        | .error e => .error (.io s!"cannot create the Git workspace: {e}")
        | .ok () => .ok ⟨text⟩

def Workspace.cred (ws : Workspace) : String := ws.root ++ "/cred"

/-- The text of a path without anything that is unusual. -/
def isPlainText (s : String) : Bool := s.toList.all fun c => c.isAlphanum || c = '/' || c = '_' || c = '.' || c = '-'

/-- One word for the shell. Ordinary paths are left as they are. -/
def shWord (s : String) : String :=
  if isPlainText s then s else "'" ++ (String.ofList (s.toList.flatMap fun c => if c = '\'' then ['\'', '\\', '\'', '\''] else [c]) ++ "'")

/-- An option whose value is a path: in double quotes for ssh when it has anything unusual, then in quotes for the shell. -/
def sshOption (name path : String) : String :=
  if isPlainText path then name ++ ("=" ++ path) else shWord (name ++ ("=\"" ++ (path ++ "\"")))

/-- The key and the pinned `known_hosts` are the only inputs. -/
def sshCommand (credDir : String) : String :=
  "ssh -i " ++ (shWord (credDir ++ "/id") ++
    (" -o IdentitiesOnly=yes -o IdentityAgent=none -o BatchMode=yes -o PasswordAuthentication=no -o StrictHostKeyChecking=yes -o " ++
      (sshOption "UserKnownHostsFile" (credDir ++ "/known_hosts") ++ " -o GlobalKnownHostsFile=/dev/null -o ConnectTimeout=20")))

end Harpoon.Git
