import Blueprint.Resolution.Operation
/-!
One resolution in a world of its own, from the start to its end.
-/

namespace Blueprint.Resolver

/-- Looks, and steps in one look, for which a resolution is followed where nothing else is asked. -/
def patience : Nat := 1000000000000000

/-- The result of resolving a node on a registry with nothing else going on, and the registry it
leaves; none if the resolution is not over after `fuel` looks of `fuel` steps. -/
def resolve? (fuel : Nat) (config : Config) (registry : Registry) (node : Node) :
    Option (Except ResolveError Value × Registry) :=
  let world := World.initial registry
  ((Operation.resolve 0 config node world).runAlone fuel fuel world).map
    fun (result, world) => (result, world.registry)

end Blueprint.Resolver
