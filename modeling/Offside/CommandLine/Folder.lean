import Offside.Outline.Document
/-!
# Paths from one folder

What stands at a path, seen from a folder with files and folders in it.  A path goes from name to name; one dot stays
where it is, two dots go up, and a slash behind a file leads nowhere.  A path that is too long is refused at once, a
name that is too long where the path comes to it.

Of what is around the folder little is known: that there are folders above it, and what any system has at its root.
-/
namespace Offside
namespace CommandLine

/-- What a folder holds, by the paths from there: files with their bytes, and folders.  The first at a path counts. -/
abbrev Folder := List (String × Option (List UInt8))

namespace Folder

/-- Where a path has led: to a folder inside, or to one counted from the root of the system, each by the names on the
way; to one above, to a file, nowhere, through a file, or to a name that is too long. -/
inductive Spot where
  | inside (names : List String)
  | fromRoot (names : List String)
  | above
  | file (bytes : List UInt8)
  | nowhere
  | throughFile
  | tooLong
deriving DecidableEq, Repr

def maxName : Nat := 255

def maxPath : Nat := 4095

/-- One name further along a path that is there. -/
def follow (names : List String) (name : String) : List String :=
  if name = "" ∨ name = "." then names else if name = ".." then names.dropLast else names ++ [name]

/-- The folder with a file or a folder put at a path, and with every folder on the way there. -/
def put (folder : Folder) (path : String) (item : Option (List UInt8)) : Folder :=
  let steps := path.splitOn "/"
  let spot (n : Nat) : String := String.intercalate "/" ((steps.take n).foldl follow [])
  (spot steps.length, item) :: (List.range steps.length).map (fun n => (spot n, none)) ++ folder

def ofItems (items : List (String × Option (List UInt8))) : Folder :=
  items.foldl (fun folder item => folder.put item.1 item.2) []

def rootFolders : List String :=
  ["bin", "boot", "dev", "etc", "home", "lib", "media", "mnt", "opt", "proc", "root", "run", "sbin", "srv", "sys",
   "tmp", "usr", "var"]

/-- What the names on the way lead to, counted from the folder.  A folder is there if it is named, or if something in
it is. -/
def enter (folder : Folder) (names : List String) : Spot :=
  let path := String.intercalate "/" names
  match folder.lookup path with
  | some (some bytes) => .file bytes
  | some none => .inside names
  | none => if folder.any (fun item => (path ++ "/").isPrefixOf item.1) then .inside names else .nowhere

/-- What the names on the way lead to, counted from the root. -/
def enterRoot (names : List String) : Spot :=
  match names with
  | [name] => if rootFolders.contains name then .fromRoot names else .nowhere
  | _ => if names = ["dev", "null"] then .file [] else .nowhere

def step (folder : Folder) (spot : Spot) (name : String) : Spot :=
  match spot with
  | .inside names =>
    if name = "" ∨ name = "." then .inside names
    else if name = ".." then if names.isEmpty then .above else .inside names.dropLast
    else if maxName < name.utf8ByteSize then .tooLong
    else folder.enter (names ++ [name])
  | .fromRoot names =>
    if name = "" ∨ name = "." then .fromRoot names
    else if name = ".." then .fromRoot names.dropLast
    else if maxName < name.utf8ByteSize then .tooLong
    else enterRoot (names ++ [name])
  | .above =>
    if name = "" ∨ name = "." ∨ name = ".." then .above
    else if maxName < name.utf8ByteSize then .tooLong
    else .nowhere
  | .file _ => .throughFile
  | _ => spot

def look (folder : Folder) (path : String) : Outline.Found :=
  if path.contains '\x00' then .badPath
  else if path = "" then .nothing
  else if maxPath < path.utf8ByteSize then .tooLong
  else
    let origin : Spot := if path.toList.head? = some '/' then .fromRoot [] else .inside []
    match (path.splitOn "/").foldl folder.step origin with
    | .inside _ | .fromRoot _ | .above => .folder
    | .file bytes => .file bytes
    | .nowhere => .nothing
    | .throughFile => .notFolder
    | .tooLong => .tooLong

end Folder
end CommandLine
end Offside
