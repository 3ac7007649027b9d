import SolidityCalls.FileSystem.Basic

/-! Changes to a file system: new directories, files and links. -/
namespace SolidityCalls.FileSystem

/-- Makes one directory, whose parent must exist. -/
def makeDirectory (fs : FileSystem) (parts : List String) : Except SystemError FileSystem :=
  match parts.getLast? with
  | none => .error .alreadyExists
  | some name =>
    if name = ".." then
      match fs.find parts with
      | .ok _ => .error .alreadyExists
      | .error e => .error e
    else
      match fs.find parts.dropLast with
      | .error e => .error e
      | .ok (loc, .directory) =>
        if isOverlong name then .error .nameTooLong
        else
          match fs.entryAt? (loc ++ [name]) with
          | some _ => .error .alreadyExists
          | none => .ok (fs.put (loc ++ [name]) .directory)
      | .ok _ => .error .notDirectory

/-- Makes one directory unless it is there already. -/
def ensureDirectory (fs : FileSystem) (parts : List String) : Except SystemError FileSystem :=
  match fs.makeDirectory parts with
  | .ok fs => .ok fs
  | .error .notFound => .error .notFound
  | .error e =>
    match fs.find parts with
    | .ok (_, .directory) => .ok fs
    | .error .nameTooLong => .error .nameTooLong
    | _ => .error e

/-- Makes the directory `reversed.reverse` below `base`, and those above it where they are
missing. Directories made before an error stay, and the error names the one that failed. -/
def ensureDirectories (fs : FileSystem) (base : List String) :
    (reversed : List String) → FileSystem × Option (SystemError × List String)
  | [] =>
    match fs.ensureDirectory base with
    | .ok fs => (fs, none)
    | .error e => (fs, some (e, []))
  | name :: above =>
    match fs.ensureDirectory (base ++ (name :: above).reverse) with
    | .ok fs => (fs, none)
    | .error .notFound =>
      match fs.ensureDirectories base above with
      | (fs, some e) => (fs, some e)
      | (fs, none) =>
        match fs.ensureDirectory (base ++ (name :: above).reverse) with
        | .ok fs => (fs, none)
        | .error e => (fs, some (e, (name :: above).reverse))
    | .error e => (fs, some (e, (name :: above).reverse))

/-- Writes a file, through links if there are any. -/
def writeFile (fs : FileSystem) (parts : List String) (content : Content) :
    Except SystemError FileSystem :=
  match fs.walk true maxLinks [] parts with
  | .error e => .error e
  | .ok (_, some .directory) => .error .isDirectory
  | .ok (loc, _) => .ok (fs.put loc (.file content))

/-- Makes a symbolic link at a name that is not taken. -/
def makeLink (fs : FileSystem) (parts : List String) (target : String) :
    Except SystemError FileSystem :=
  match fs.find parts.dropLast, parts.getLast? with
  | .error e, _ => .error e
  | .ok (loc, .directory), some name =>
    if isOverlong name then .error .nameTooLong
    else
      match fs.entryAt? (loc ++ [name]) with
      | some _ => .error .alreadyExists
      | none => .ok (fs.put (loc ++ [name]) (.link target))
  | .ok _, some _ => .error .notDirectory
  | .ok _, none => .error .alreadyExists

end SolidityCalls.FileSystem
