import Blueprint.TypeName
/-!
The full names of the types that are known by an abbreviation, in which `S` stands for the type of
texts.
-/

namespace Blueprint.TypeName

/-- Abbreviations and full names. -/
def catalog : List (String × TypeName) := [
  ("()", ⟨"()"⟩),
  ("bool", ⟨"bool"⟩),
  ("u8", ⟨"u8"⟩),
  ("u32", ⟨"u32"⟩),
  ("u64", ⟨"u64"⟩),
  ("i64", ⟨"i64"⟩),
  ("f64", ⟨"f64"⟩),
  ("char", ⟨"char"⟩),
  ("str", ⟨"str"⟩),
  ("&'staticstr", ⟨"&str"⟩),
  ("S", ⟨"alloc::string::String"⟩),
  ("Auth", ⟨"scaffold_test_utils::auth::Auth"⟩),
  ("Job", ⟨"scaffold_test_utils::job::Job"⟩),
  ("Step", ⟨"scaffold_test_utils::step::Step"⟩),
  ("Tree", ⟨"oracle_driver::ents::Tree"⟩),
  ("Registry", ⟨"scaffold_registry::registry::Registry"⟩),
  ("[u8]", ⟨"[u8]"⟩),
  ("[u8;4]", ⟨"[u8; 4]"⟩),
  ("[S;2]", ⟨"[alloc::string::String; 2]"⟩),
  ("[Auth]", ⟨"[scaffold_test_utils::auth::Auth]"⟩),
  ("&'staticAuth", ⟨"&scaffold_test_utils::auth::Auth"⟩),
  ("&'static[S]", ⟨"&[alloc::string::String]"⟩),
  ("*constS", ⟨"*const alloc::string::String"⟩),
  ("(S,S)", ⟨"(alloc::string::String, alloc::string::String)"⟩),
  ("(u8,u8)", ⟨"(u8, u8)"⟩),
  ("(S,Vec<u8>)", ⟨"(alloc::string::String, alloc::vec::Vec<u8>)"⟩),
  ("(Vec<u8>,S)", ⟨"(alloc::vec::Vec<u8>, alloc::string::String)"⟩),
  ("Vec<u8>", ⟨"alloc::vec::Vec<u8>"⟩),
  ("Vec<S>", ⟨"alloc::vec::Vec<alloc::string::String>"⟩),
  ("Vec<Vec<S>>", ⟨"alloc::vec::Vec<alloc::vec::Vec<alloc::string::String>>"⟩),
  ("Option<u8>", ⟨"core::option::Option<u8>"⟩),
  ("Option<Auth>", ⟨"core::option::Option<scaffold_test_utils::auth::Auth>"⟩),
  ("Option<Vec<Auth>>", ⟨"core::option::Option<alloc::vec::Vec<scaffold_test_utils::auth::Auth>>"⟩),
  ("Result<S,u8>", ⟨"core::result::Result<alloc::string::String, u8>"⟩),
  ("Box<str>", ⟨"alloc::boxed::Box<str>"⟩),
  ("Box<dynError>", ⟨"alloc::boxed::Box<dyn core::error::Error>"⟩),
  ("Box<[S]>", ⟨"alloc::boxed::Box<[alloc::string::String]>"⟩),
  ("Arc<str>", ⟨"alloc::sync::Arc<str>"⟩),
  ("Arc<Auth>", ⟨"alloc::sync::Arc<scaffold_test_utils::auth::Auth>"⟩),
  ("HashMap<S,Auth>", ⟨"std::collections::hash::map::HashMap<alloc::string::String, scaffold_test_utils::auth::Auth>"⟩),
  ("IndexMap<S,S>", ⟨"indexmap::map::IndexMap<alloc::string::String, alloc::string::String>"⟩),
  ("Node<Auth>", ⟨"scaffold_core::node::Node<scaffold_test_utils::auth::Auth>"⟩),
  ("Ref<Step>", ⟨"scaffold_core::node::Ref<scaffold_test_utils::step::Step>"⟩),
  ("Spec<JobShell,S>", ⟨"scaffold_core::spec::Spec<scaffold_test_utils::job::JobShell, alloc::string::String>"⟩),
  ("Builder<JobShell,()>", ⟨"scaffold_core::builder::Builder<scaffold_test_utils::job::JobShell, ()>"⟩),
  ("dynError", ⟨"dyn core::error::Error"⟩),
  ("dynScaffold<Auth>", ⟨"dyn scaffold_core::shell::Scaffold<scaffold_test_utils::auth::Auth>"⟩),
  ("fn(u8)->S", ⟨"fn(u8) -> alloc::string::String"⟩),
  ("fn()->Vec<S>", ⟨"fn() -> alloc::vec::Vec<alloc::string::String>"⟩),
  ("RegistryKey", ⟨"scaffold_registry::key::RegistryKey"⟩),
  ("ResolveError", ⟨"scaffold_core::error::ResolveError"⟩),
  ("std::ops::Range<u8>", ⟨"core::ops::range::Range<u8>"⟩),
  ("std::cmp::Ordering", ⟨"core::cmp::Ordering"⟩),
  ("std::collections::BTreeMap<u8,S>", ⟨"alloc::collections::btree::map::BTreeMap<u8, alloc::string::String>"⟩)]

/-- The type with an abbreviation. -/
def ofAbbreviation? (abbreviation : String) : Option TypeName :=
  (catalog.find? fun entry => entry.1 = abbreviation).map (·.2)

end Blueprint.TypeName
