/-! # Names of files

The *name* of a path is what follows its last slash; slashes at the end and components `.` after a
slash do not count, and `.` and `..` are no names.  The *extension* of a name is what follows its
last point, unless the point is its first character.

`Path.withExtension` first cuts as many characters off the end of the path as its extension has,
and then gives what is left the new one.  So `..x` is cut to `..`, which has no name to extend. -/

namespace TernaryMachine

namespace Path

/-- Drops slashes and components `.` from the end of a path that is written backwards. -/
def dropTail : List Char → List Char
  | '/' :: cs => dropTail cs
  | '.' :: '/' :: cs => dropTail ('/' :: cs)
  | cs => cs

/-- The name at the end of a path and what stands before it; all is written backwards. -/
def splitName (path : List Char) : List Char × List Char :=
  let cs := dropTail path
  (cs.takeWhile fun c => c ≠ '/', cs.dropWhile fun c => c ≠ '/')

/-- The extension and the rest of a name without the point; all is written backwards. -/
def splitExtension (name : List Char) : List Char × List Char :=
  match name.dropWhile fun c => c ≠ '.' with
  | _ :: c :: cs => (name.takeWhile fun c => c ≠ '.', c :: cs)
  | _ => ([], name)

/-- The path with an extension in the place of that of its name, if it has a name; all is written
backwards. -/
def setExtension (extension path : List Char) : List Char :=
  match splitName path with
  | ([], _) | (['.'], _) | (['.', '.'], _) => path
  | (name, folder) => extension ++ '.' :: (splitExtension name).2 ++ folder

def withExtension (path extension : String) : String :=
  let backwards := path.toList.reverse
  let old := (splitExtension (splitName backwards).1).1
  let cut := backwards.drop old.length
  String.ofList (setExtension extension.toList.reverse cut).reverse

def endsWith (path suffix : String) : Bool :=
  suffix.toList.isSuffixOf path.toList

end Path

end TernaryMachine
