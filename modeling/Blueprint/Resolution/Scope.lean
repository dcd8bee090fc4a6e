import Blueprint.Config
import Blueprint.Path
import Blueprint.Registry
/-!
Scopes: what a branch of a resolution knows of its place. The configuration is that of the whole
resolution; the path and the deferred entry on whose behalf the branch runs are its own.
-/

namespace Blueprint

structure Scope where
  config : Config
  path : Path
  /-- the deferred entry that is being initialized by this branch -/
  owner : Option Key
  deriving DecidableEq, Repr

namespace Scope

/-- Where a resolution starts. -/
def root (config : Config) : Scope := ⟨config, .root, none⟩

def child (scope : Scope) (segment : Segment) : Scope :=
  { scope with path := scope.path.child segment }

def field (scope : Scope) (name : String) : Scope :=
  scope.child (.field name)

def index (scope : Scope) (position : Nat) : Scope :=
  scope.child (.index position)

/-- The scope in which the entry under a key is initialized from here. -/
def dereferencing (scope : Scope) (key : Key) : Scope :=
  { scope.child (.reference key.text) with owner := some key }

/-- The scope as a reader sees it, with the registry it belongs to. -/
def debug (scope : Scope) (registry : Registry) : String :=
  Text.braced "Scope"
    [("registry", registry.debug), ("config", scope.config.debug), ("path", scope.path.debug),
      ("owner", Text.perhaps (scope.owner.map Key.debug))]

end Scope

end Blueprint
