/-!
# The built-in scopes

Every language that comes with the library, with the editor scopes that it serves.
-/

namespace LiveSyntax

/-- The built-in languages, in the order of their names, with their scopes. -/
def builtinScopes : List (String × List String) :=
  [("bash", ["source.shell"]),
   ("c", ["source.c"]),
   ("c_sharp", ["source.cs"]),
   ("clojure", ["source.clojure"]),
   ("cpp", ["source.c++"]),
   ("css", ["source.css"]),
   ("dockerfile", ["source.dockerfile"]),
   ("elixir", ["source.elixir"]),
   ("elm", ["source.elm"]),
   ("erlang", ["source.erlang"]),
   ("go", ["source.go"]),
   ("hack", ["source.hack"]),
   ("haskell", ["source.haskell"]),
   ("hcl", ["source.hcl"]),
   ("html", ["text.html.basic", "text.xml"]),
   ("java", ["source.java"]),
   ("javascript", ["source.js", "source.jsx"]),
   ("json", ["source.json"]),
   ("julia", ["source.julia"]),
   ("kotlin", ["source.Kotlin"]),
   ("latex", ["text.tex.latex"]),
   ("lua", ["source.lua"]),
   ("make", ["source.makefile"]),
   ("markdown", ["text.html.markdown"]),
   ("objc", ["source.objc"]),
   ("ocaml", ["source.ocaml"]),
   ("perl", ["source.perl"]),
   ("php", ["source.php"]),
   ("python", ["source.python"]),
   ("query", ["source.scheme"]),
   ("r", ["source.r"]),
   ("regex", ["source.regexp"]),
   ("rst", ["text.restructuredtext"]),
   ("ruby", ["source.ruby"]),
   ("rust", ["source.rust"]),
   ("scala", ["source.scala"]),
   ("scss", ["source.scss"]),
   ("sql", ["source.sql"]),
   ("svelte", ["text.html.svelte"]),
   ("terraform", ["source.terraform"]),
   ("toml", ["source.toml"]),
   ("tsx", ["source.tsx"]),
   ("typescript", ["source.ts"]),
   ("vue", ["text.html.vue"]),
   ("yaml", ["source.yaml"]),
   ("zig", ["source.zig"])]

end LiveSyntax
